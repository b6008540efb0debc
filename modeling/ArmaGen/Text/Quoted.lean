import ArmaGen.Text.Runs

/-!
# Texts as quoted literals

The progress display shows source text in single quotes, unless the text holds a single quote and no
double quote. The quote in use, the backslash, line ends, returns and tabulators are escaped by a
backslash, and every other character that cannot be shown by its code: two, four or eight
hexadecimal digits. A character can be shown if Unicode classes it as a letter, mark, number,
punctuation or symbol, or if it is the plain blank; the table gives the runs of those that cannot.
-/

namespace ArmaGen

def unprintableRuns : List Nat := readRuns
  "aBgDrBimbBBmcgehbbbubPhbBmcBycdbCdiBbegrwbHkbBwcChcDxoChcBxcpbBccbblfBfjCwbGfbicccwbhbbdecjccc
   eibecbfczcdbgeccwbhbcbcbccbbfeccddbhebbhrkdbjbdbwbhbcbfckbdbdcbpecmhhbdbicccwbhbcbfcjcccdhdecb
   fcskcbgddbedcbbbcdcdddmefddbecbgbovfnbdbxbqcjbdbehcbdcbceckhwbdbxbkbfcjbdbehcgcbeckbcnnbdbBzbd
   bgeqcBabdbsdybjbbchdbegbbbigkcdmCgeBdBlcbbbfbybbbxcfbbbgckceBgCubBkeBnbBkbpbnBlHqbbfbcOnbechbb
   becBpbecBhbechbbbecpbCfbecCpcBgdBagDicgcYqbBcdDlhwjyjumnbdbcmDqckgkgoblgDlhBrfCskBfbmemebdBqcf
   lBseBagldCkcCnbBdclgkgocBfBxCzdBvbEmiCidpdCihBrcliBrfUocgcBmcgcibbbbbbbBfcCbbpbocgbtcdbjryiBvr
   ccBbbndBhpBhpFkeZnzlvCRscBgbNlfBtbbfbcCehcoyjhbhbhbhbhbhbhbhbEwBiBabDlmIgBamfClbDicDzfBrbDqbDg
   mBvbBRIrdCdjNkuHciHvfcbbbfyChdkgCeiCsimgEmlBedDableBhbCdjockcDzyBckgcgcgjhbhbCieEwckgQNsmxeBxM
   NcOccEcBmhmffBabfbbbcbcbEvqRdcCchbBgBqgBzbtbeefbFfeHidgcgcgcddhbhnccmbBabtbcbpcoBiEtfdeBtdDkbn
   dbBvBuFaBddBxpBceBkjBefBrfBebBleoBqGcckgBkeBkeBoiCalmbpbhbcblbpbhbcCpLzjwkiygbBqbjCrgcbbBsbcdb
   cxbCuijBwtbcfBhdBbfbCmCeeucBybcfibdbBdcdekhjhCmBgBnemjCcdBdcBbfBahemhDcCvCdBznBzhBuikLiBfbBqbd
   ccDaBoiBqwBaBmBcuxjDaeBkjCkbfnzhkgCbbsiBnjDsbulsbBsCnhbbbebpblgChfkgebicccwbhbcbfbkcccdcbgbfhc
   hdfFjDobfBeCuikGkCccBmBiCrlkgntCggkCcBbcpexHdCiDwDfmicbcibcbBebccmjkCsicBuclBbCuiDfnCvKdjbBtbo
   kBddBgcwboCvhbcbBsdbbcbjikggbcbBlbcbghkLyzHbbpBynBJnDyEhbflHoDXkDvnBPfFZtWlMUbVxhBfbkeDdbkgBec
   gkCskkbhbvftBAmDnDxCxeCfhrCmflcoJCaiBVqBqjNFrebhbcbLfBtdreiPgDKuEdfndjhkceGYyBucxjEmCiJmkBncCw
   iEivCsFyumDjjzFfDhbCtbccbcccebmbbbhbCnbecibhbBcbebfbbdhbNccLgcBBapfbpBQmBfIrhbrchbcbfIfBtdocke
   cMiBfrCgfbBWahbebcbpbHpcqBpCyekecBEfCqCyCjHmebBbbcbbcbbkbebbbbgbebbbbbbdbcbbcbbbbbbbbbbcbbcebh
   bebebbbkbrfdbfbrCacKkBseDwmpcpbpbBlkGsCeBdnBsejhcogFyBLwfqdndEmmDlhmebpmeCeikgBoiBeccDaNcmocfd
   fdhjBddlfgkkgiihjFrbCdBlkBNqCLFcBgGDthIocINqoLBlEPjUwCFyHHzBOTMrJgLECu"

def isPrintable (c : Char) : Bool :=
  !inRuns unprintableRuns c.toNat

def hexDigit (n : Nat) : Char :=
  if n < 10 then Char.ofNat (48 + n) else Char.ofNat (87 + n)

def hexDigits : Nat → Nat → List Char
  | 0, _ => []
  | width + 1, n => hexDigits width (n / 16) ++ [hexDigit (n % 16)]

def escapedCode (c : Char) : List Char :=
  if c.toNat < 256 then '\\' :: 'x' :: hexDigits 2 c.toNat
  else if c.toNat < 65536 then '\\' :: 'u' :: hexDigits 4 c.toNat
  else '\\' :: 'U' :: hexDigits 8 c.toNat

def escapedChar (quote c : Char) : List Char :=
  if c == quote || c == '\\' then ['\\', c]
  else if c == '\n' then ['\\', 'n']
  else if c == '\r' then ['\\', 'r']
  else if c == '\t' then ['\\', 't']
  else if isPrintable c then [c]
  else escapedCode c

def quoteFor (cs : List Char) : Char :=
  if cs.contains '\'' && !cs.contains '"' then '"' else '\''

def quoted (text : String) : String :=
  let cs := text.toList
  let quote := quoteFor cs
  String.ofList (quote :: cs.flatMap (escapedChar quote) ++ [quote])

end ArmaGen
