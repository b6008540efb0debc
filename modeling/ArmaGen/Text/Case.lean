import ArmaGen.Text.Runs

/-!
# Capital and small letters

`capitalize` writes the first letter of a text as a capital and the others as small letters, in all
scripts. The tables list letters in runs that lie equally far from their counterparts. Some letters
have several characters as their capital form, and a capital sigma at the end of a word has a small
letter of its own.
-/

namespace ArmaGen

/-! ### Tables -/

/-- Code points from a first to a last one in equal steps, all at the same distance from their
counterparts. -/
structure CaseRun where
  first : Nat
  last : Nat
  step : Nat
  distance : Int
deriving Repr, DecidableEq

/-- Runs in equal steps with a common distance, given by their first and last code points. -/
def runsOf (step : Nat) (distance : Int) : List Nat → List CaseRun
  | first :: last :: rest => ⟨first, last, step, distance⟩ :: runsOf step distance rest
  | _ => []

def single (letter : Nat) (distance : Int) : CaseRun :=
  ⟨letter, letter, 1, distance⟩

def capitalRuns : List CaseRun :=
  runsOf 2 (-1) (readRuns "JxLrLvLzMcMqMtOlOoOsOxOzPcPcPgPgPmPmPtPtQbQfQiQiQnQnQqQqQuQwQzQzRdRdRmRmRp
   RpRsSiSlTbTfThTlUxVbVrWaWaWgWgWlWtBHxBHzBIdBIdBLxBMtBNcBNcBNfBNfBRdBSjBStBUtBUwBViBVlBZbLJlLPd
   LPpLTfMSaMSaQUzQUzQVgQVkQVrQVrQVuQVuQWfQZzRAiRAkRApRApCKYzCLArCLBlCLClCLHrCLIdCLIhCLKpCLLaCLLc
   CLLfCLLnCLLsCLLsCLLxCLLzCLMdCLMvCLNhCLNvCLOaCLOcCLOjCLOjCLOpCLOrCLPuCLPu") ++
  runsOf 1 8 [7936, 7943, 7952, 7957, 7968, 7975, 7984, 7991, 8000, 8005, 8032, 8039, 8064, 8071,
    8080, 8087, 8096, 8103, 8112, 8113, 8144, 8145, 8160, 8161] ++
  runsOf 1 (-32) [224, 246, 248, 254, 945, 961, 963, 971, 1072, 1103, 65345, 65370, 71872, 71903,
    93792, 93823] ++
  runsOf 1 (-39) [66967, 66977, 66979, 66993, 66995, 67001, 67003, 67004] ++
  runsOf 1 (-7264) [11520, 11557, 11559, 11559, 11565, 11565] ++
  runsOf 1 (-40) [66600, 66639, 66776, 66811] ++
  runsOf 1 (-48) [1377, 1414, 11312, 11359] ++
  runsOf 1 (-205) [598, 599, 608, 608] ++
  runsOf 1 130 [414, 414, 891, 893] ++
  runsOf 2 8 [8017, 8023] ++
  [⟨575, 576, 1, 10815⟩, ⟨650, 651, 1, -217⟩, ⟨941, 943, 1, -37⟩, ⟨973, 974, 1, -63⟩, ⟨1104, 1119,
   1, -80⟩, ⟨5112, 5117, 1, -8⟩, ⟨7299, 7300, 1, -6242⟩, ⟨8048, 8049, 1, 74⟩, ⟨8050, 8053, 1, 86⟩,
   ⟨8054, 8055, 1, 100⟩, ⟨8056, 8057, 1, 128⟩, ⟨8058, 8059, 1, 112⟩, ⟨8060, 8061, 1, 126⟩, ⟨8560,
   8575, 1, -16⟩, ⟨9424, 9449, 1, -26⟩, ⟨43888, 43967, 1, -38864⟩, ⟨68800, 68850, 1, -64⟩,
   ⟨125218, 125251, 1, -34⟩] ++
  List.zipWith single
    (readRuns "GzJvLtOtOuPpPuRfRkRnRqSjTdWuWvWwWxWyXdXfXgXlXnXpXqXsXtXuXvXwXzYbYcYfYnYqYsYtYxYyYzZc
   ZiZtZuBGfBKeBLaBLkBLoBLpBLtBLuBLvBMuBMvBMwBMxBMzBVjKUqKUrKUsKUvKUwKUxKUyLEfLEjLFaLPjMAdMAoMAt
   MCbMCpMPyQVdQVeCLMaCMWx")
    [743, 121, -232, -300, 195, 97, 163, 56, 1, 1, 1, -79, 1, 10783, 10780, 10782, -210, -206, -202,
     -203, 42319, 42315, -207, 42280, 42308, -209, -211, 42308, 10743, 42305, -211, 10749, -213,
     -214, 10727, -218, 42307, -218, 42282, -218, -69, -71, -219, 42261, 42258, 84, -38, -31, -64,
     -62, -57, -47, -54, -8, -86, -80, 7, -116, -96, -15, -6254, -6253, -6244, -6243, -6236, -6181,
     35266, 35332, 3814, 35384, -59, 9, -7205, 9, 7, 9, -28, -10795, -10792, 48, -928]

/-- Letters with the two or three characters of their capital forms. -/
def textsOf : List Nat → List (Nat × List Nat)
  | letter :: first :: second :: third :: rest =>
    (letter, [first, second, third].filter (0 < ·)) :: textsOf rest
  | _ => []

def capitalTexts : List (Nat × List Nat) := textsOf (readRuns
  "IpDfElaMrBAyDaaTcCwBEaaBJcBJlBDwBDpBKiBJxBDwBDpCClBZhCCgaLPeCuBFlaLPfDgBDwaLPgDjBDyaLPhDlBDyaL
   PiCnBBaaLWiBJxBEhaLWkBJxBEhBDoLWmBJxBEhBDpLWoBJxBEhBGcMAcMAkBGfaMAeBIsBGfaMAgBJdBGcaMAhBJdBGcB
   GfMAsMBaBGfaMAuBIvBGfaMAwBJjBGcaMAxBJjBGcBGfMBiBJlBDwBDoMBjBJlBDwBDpMBmBJlBGcaMBnBJlBDwBGcMByB
   JxBDwBDoMBzBJxBDwBDpMCaBJtBEhaMCcBJxBGcaMCdBJxBDwBGcMCoMCwBGfaMCqBJbBGfaMCsBKbBGcaMCtBKbBGcBGf
   DRBkCsDyaDRBlCsEbaDRBmCsEeaDRBnCsDyEbDRBoCsDyEeDRBpDfEmaDRBqDfEmaDRCdBZwCBuaDRCeBZwCBdaDRCfBZw
   CBjaDRCgCAgCBuaDRChBZwCBla")

def CaseRun.reverse (run : CaseRun) : CaseRun :=
  { first := (run.first + run.distance).toNat, last := (run.last + run.distance).toNat,
    step := run.step, distance := -run.distance }

/-- Letters outside ASCII whose small form is one character. -/
def smallRuns : List CaseRun :=
  [⟨7312, 7354, 1, -3008⟩, ⟨7357, 7359, 1, -3008⟩] ++
  List.zipWith single (readRuns "RkRlRnRoRqRrTdTeBJlBJoBJvBMyLPmMOkMOoMOpCKZi")
    [2, 1, 2, 1, 2, 1, 2, 1, 32, 32, 32, -60, -7615, -7517, -8383, -8262, 1] ++
  capitalRuns.map CaseRun.reverse

/-- Characters with case: letters that are capital or small. -/
def casedRuns : List Nat := readRuns
  "CnBagBaBvbkbebfxbBfbHnbeeIabBbHkeccddbbgbbdbbbubDfbFjiGkbBmjBpEFfBmbbfbcBrcdZwDicgDFujhBrcdCmB
   sClnbBiDxKscgcBmcgcibbbbbbbBfcCbbhbbddbhdecgenfdbhKbbebckbbdfgbbbbbbebgebceffebrBgdcBFlCaCRuEu
   cDzgedcmBmbbfbBTWcBusBcFeDabxdebChfcbbbfBbcdbBFpBrfjhDcBEAihmfBNtBagBaBTtDcDsBkeBkEmlbpbhbcblb
   pbhbcCOpBznBzEKzCmBGIqCmBMLkDhbCtbccbcccebmbbbhbCnbecibhbBcbebfbbdhbNcczbzbBfbzbBfbzbBfbzbBfbz
   biCSykbuDThCqDAaBagBagBa"

/-- Characters such as marks, which the search for a letter with case passes over. -/
def passedRuns : List Nat := readRuns
  "BnbgblbBjbbbCtbebbbebccTjHkecebjcbbJrhHzbfbBxBtbbbcbcbbBsblgklbbBjbkvqbDxibkbeBhbbbBeBbDnlCgle
   bcbyyBrdBsbhcgiBpCgCdbbbeiebdhkcnbpbCgbeeibucBabccCfbececcddbBecdblcCfbefbcebucwgbbCgbcbbeibhc
   lcBebCjbmbBybdbCdbbdfdbehclcBdbCgbcbgbfcucBccCfceeibucBdbCubhdbbDmbchljDubcjjbbgCwcBbbbbbbCdob
   fbcflbBkjbDyebgbccczcedqenbccgbpbDqbXkdBKkdBdcBecBecCmcbhibcldbfbBtfBzbCncBibEodecjbgdIlccbCgb
   bhbbbbcigkcbBnbiBfBxeBwbbfbbfbBojmcBgeccbdCebbcdbbdCgiccCmgDedbnbhebgbdcByClnbBiDxRdbbdldndndn
   cmfickbcbcfBxfbkbbnbqnBzBhEJrcEjdEvbpbDsBgBvbSbbBkedffbDpgDpdBQBubBWcgKkbDuebkbbBceDccoBiDabxd
   DzddcibdbebzcfbFvcBasnbBmizlBudBwbceccrbvcCogccccmbibBjblbBzbbdccfcbbBbbocfcbbDwfjdErbcbebBDZs
   bFrrWbqdbmqBibcbGnbhbgblbBjbbbBvbBtcCpbvdTtbIsbFtfBNpgbBqbjWkdbcfeBodebGjcWbeOxcFxlBxeEtbCcpBp
   bcckdBxecccbebkbBydBkfbiCkbmcCajkecbDrdcbbcgbGebdivcCfcdbBlhdfHnicdbbxbDggbbecbcJeegcbcBbcDhic
   bbcEcbbbcgbbDxdcebfJzjbcJwcbbebFoeccebBgkBogceibjgcdBunbcPqhbgbbDewchbcbcEsgdbbcbhbbCucdbbbNjc
   IBbjUStfChhjeBNvbClrCmcbcYGpebhbcEUgcbeGYuBucxUydjqchBeeFsdCYdCdeByibobwfbpCAihbrchbcbfKboOebC
   jeCFwhEfiEBffBSXXpbBeDsEyJg"

/-! ### Letters -/

def counterpart (runs : List CaseRun) (code : Nat) : Nat :=
  match runs.find? fun run =>
    run.first ≤ code && code ≤ run.last && (code - run.first) % run.step == 0 with
  | some run => ((code : Int) + run.distance).toNat
  | none => code

def capitalOf (c : Char) : List Char :=
  if c.toNat < 128 then [c.toUpper]
  else match capitalTexts.lookup c.toNat with
    | some codes => codes.map Char.ofNat
    | none => [Char.ofNat (counterpart capitalRuns c.toNat)]

def meetsCased (text : List Char) : Bool :=
  match text.dropWhile fun c => inRuns passedRuns c.toNat with
  | [] => false
  | c :: _ => inRuns casedRuns c.toNat

/-- The small form of a character between what comes before it, in reverse order, and what comes
after it. -/
def smallOf (before : List Char) (c : Char) (after : List Char) : List Char :=
  if c.toNat < 128 then [c.toLower]
  else if c == 'Σ' then [if meetsCased before && !meetsCased after then 'ς' else 'σ']
  else if c == 'İ' then ['i', Char.ofNat 775]
  else [Char.ofNat (counterpart smallRuns c.toNat)]

/-! ### Texts -/

/-- The small forms of the characters after those that came before, in reverse order. -/
def smallLetters (before : List Char) : List Char → List Char
  | [] => []
  | c :: rest => smallOf before c rest ++ smallLetters (c :: before) rest

def capitalize (text : String) : String :=
  match text.toList with
  | [] => ""
  | c :: rest => String.ofList (capitalOf c ++ smallLetters [c] rest)

end ArmaGen
