import ArmaGen.Text.Runs

/-!
# Identifiers

An identifier starts with a letter of any script or an underscore; further letters, digits, marks
and connectors may follow. The tables give the runs of both classes, as Unicode defines them for
identifiers.
-/

namespace ArmaGen

def identifierStarts : List Nat := readRuns
  "CnBaebbBaBvbkbebfxbBfbRqemofhbbbEzfbcddbbgbbdbbbubDfbFjiGkbBmcbgBpCtBbeeBtBrBjcbDvbbpchckdcbqb
   bBeBdDllbyBhjcebfwebjbdbxzhlfybgrBqCgCcdbsbhkpqeicccwbhbbdedbqbncbdockbigeccwbhbcbcbcBfebbtdqj
   bdbwbhbcbfdbsbpcxblicccwbhbcbfdbBecbdpbrbbgddbedcbbbcdcdddmwbCaibdbxbqdbBadcbccBebeibdbxbkbfdb
   BfcbcpcrjbdbBpcbqbfdidygfsdybjbbchCgBwbbnhCgcbbbfbybbbkbbkbcfbbveBgbClibBkBbfElBrubqgeedbdchde
   nmbrBmbbfbcBrbMvbechbbbecBpbecBhbechbbbecpbCfbecCpBlqqDicgdXwcrbBafCxdlhsntosonbdpCaBjbebCpDlh
   BpbbfCskBfBxBecflBseBaCcxjCbDebDpBvriCcBenckBsBaBkBpdkBkcjhBrcdBpebgbcdbfHkCmKscgcBmcgcibbbbbb
   bBfcCbbhbbddbhdecgenfdbhEmbnbqnDxbebckbbcggbbbbbbqceffebrBpDZbIvgedcmBmbbfbcCehbqxjhbhbhbhbhbh
   bhbhVedzjhfcfeDigdbDmbefBrbDqrBgBwqTsJToCmBGUfCpBucKjdqkcuBvqBfcDcBnjcDzcCmfcbbbfyqbdbebxBdCao
   ByCkgdbbclBckxzBdhBvBcbqfbkkfbBpxdbiuxdbdBybbdccfcbbbydclhdmgcgcgjhbhbBrbogElBdQNsmxeBxMNcOccE
   cBmhmffbbkbnbfbbbcbcbEeBhFjgIksCmcCcBokEpbbbdbbbbbbbbEwBkBagBalCecBfdgcgcgcdBjmbBabtbcbpcoBiEt
   CrCbKhBddBxBvBgnBefBmkBecBkeibfBqGcsBkeBkeBoiCamlbpbhbcblbpbhbcCpLzjwkiygbBqbjCrgcbbBsbcdbcxkx
   jBfCntbckwkBaCsCegcCmbpebdbBdBqBddBdBjibBcBbCckwktnsEgCvCdBznBznBkNkBqgcDaBdkbiwBqsBuvBbxmCbCf
   ccbnBtBgzBaBkBdbcbiBjdbmBwoevbbbBjsbzDghbbbebpbkhBvBmicccwbhbcbfdbsbmfGcCbseudBeBwucbbHcBvBpeB
   kBwubChBrnbCtBbBlhHdBsEmCmBficbcibcbypbbbDqicBnqbbbBcbkBohbvblButbsCvKdjbBlrbBxBeEihbcbBmvbzgb
   cbBgobMptHhbDbBJmDyEhrHoDXkDtpBPfFZtWlMUbVxhBfrDbrBesBwqeBfvftBAmCmEyCxfbConCmcbbBcJCaiBVqBqjN
   FrebhbcbLfBtdreiPgDKuEdfndjhkIWkDhbCtbccbcccebmbbbhbCnbecibhbBcbebfbbdhbNcczbzbBfbzbBfbzbBfbzb
   BfbzbiCSyBfSnBtkhqbMjBesBsBWuhbebcbpbHpChCqhbBUiebBbbcbbcbbkbebbbbgbebbbbbbdbcbbcbbbbbbbbbbcbb
   cebhbebebbbkbrfdbfbrGOaCLFcBgGDthIocINqoLBlEPjUwCFyHHz"

def identifierFollowers : List Nat := readRuns
  "BwkEvbWmEixbJrfKfBtbbbcbcbbCulBwBfgbDxhcgccbeckxbBeBbDnlpkBhjjbyebjbdbfBrdCiiBqybBhCcdbsbhkcck
   rdCebbhcccdjbkcckobcdCebbfeccddbumdbldCebbibdbducckkgbdCebbhcccdhdkccksbChfddbejbokqfCdbbhbdbe
   hclcckrdCebbhbdbehclcckqeCdcbhbdbejbkcckrdCsbegbbbigkccCjbbimibkDjbbklgckCkcgklbbbbbecBxubcflb
   BkjbDwubkmeedbdchdenmbpBBbdjjBJseBcdBdcBecCmBgjbckBhdblFnbEomemkkEylCifCfkbBdclgkwobqBxfBvrlkr
   jmdBenckBsoBwuikgkEodbvebgbcdHqCmWdctbEtnebdmEOcdFlbDsBgVigEbcBSNdkCrbekBgcDccKmbdbebxfebDfcBy
   skkgsnlBciznBseBvopklbkkBvombicckBhdBybbdccfcbbBpffcJcibcckBDZgbBCjqqqdcydHkkBlbDqcXhbIsbFtfLh
   kCApdbcfeBodebGjcWbeikOfcFxlBxeEsdCbpBflcckeBtlhbBtkgdBkobkfcBsbmdBwoiebmDemgbGemfkgeCdcbhcccd
   jbkcchdfHksjkebDdumkIfhcjBbcDerpkDdnikDfpekJipGjkCsgbccebbbcmkEphchdbBckBohbeibjlBuqPpibiqkCew
   boEsgdbbcbhbbikBwfbcbfikMreBCOnkDikBmfChhzkBMzbbCdheDdblcBDAxcGYzBucxUwfdgiichBeeFsdCCnByTsCde
   ByibobwfbpCAihbrchbcbfKbhjkNsbCjoCFmhEfhfkHBakBSVGwJg"

def isIdentifier : List Char → Bool
  | [] => false
  | c :: rest =>
    inRuns identifierStarts c.toNat &&
      rest.all fun c => inRuns identifierStarts c.toNat || inRuns identifierFollowers c.toNat

end ArmaGen
