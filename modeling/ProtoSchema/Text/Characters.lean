/-!
The characters of text, by what the program does with them.

Blank characters, the Unicode White_Space property (25 code points), separate tokens of schema
text (`isBlank`).

Hidden characters are those a quoted text writes as a `\u` escape rather than as themselves:
the code points that do not print (control, format, surrogate, private-use and unassigned
code points, the line, paragraph and space separators except the space itself, and the four
Hangul filler letters, which show nothing) and the combining marks (nonspacing and enclosing
marks and the other grapheme extenders), which would join the character before them, apart
from the two halfwidth katakana sound marks, which are letters and print. The table follows
the Unicode Character Database, version 17.0 (`hiddenRanges`, `isHidden`).

JSON string literals are written as compact JSON writers emit them: a quote and a backslash
get a backslash, the five common control characters their short escapes, every other
character below U+0020 a `\u00xx` escape in lowercase hex, and all other characters stand as
they are (`Json.quote`).

Quoted text inside error messages stands between double quotes, with a backslash before
quotes and backslashes, short escapes for NUL, tab, carriage return and line feed, and
`\u{…}` (lowercase hex, no leading zeros) for the hidden characters (`Quoted.quote`).
-/

namespace ProtoSchema

def blankCodePoints : List Nat :=
  [0x09, 0x0a, 0x0b, 0x0c, 0x0d, 0x20, 0x85, 0xa0, 0x1680,
   0x2000, 0x2001, 0x2002, 0x2003, 0x2004, 0x2005, 0x2006, 0x2007, 0x2008, 0x2009, 0x200a,
   0x2028, 0x2029, 0x202f, 0x205f, 0x3000]

/-- Whether `c` has the Unicode White_Space property. -/
def isBlank (c : Char) : Bool := blankCodePoints.contains c.toNat

def hiddenTable : String := String.join [
  "00000000001f00007f0000a00000ad0000ad00030000036f00037800037900038000038300038b00038b00038d00038d",
  "0003a20003a200048300048900053000053000055700055800058b00058c0005900005bd0005bf0005bf0005c10005c2",
  "0005c40005c50005c70005cf0005eb0005ee0005f500060500061000061a00061c00061c00064b00065f000670000670",
  "0006d60006dd0006df0006e40006e70006e80006ea0006ed00070e00070f00071100071100073000074c0007a60007b0",
  "0007b20007bf0007eb0007f30007fb0007fd00081600081900081b00082300082500082700082900082f00083f00083f",
  "00085900085d00085f00085f00086b00086f00089000089f0008ca00090200093a00093a00093c00093c000941000948",
  "00094d00094d00095100095700096200096300098100098100098400098400098d00098e0009910009920009a90009a9",
  "0009b10009b10009b30009b50009ba0009bc0009be0009be0009c10009c60009c90009ca0009cd0009cd0009cf0009db",
  "0009de0009de0009e20009e50009fe000a02000a04000a04000a0b000a0e000a11000a12000a29000a29000a31000a31",
  "000a34000a34000a37000a37000a3a000a3d000a41000a58000a5d000a5d000a5f000a65000a70000a71000a75000a75",
  "000a77000a82000a84000a84000a8e000a8e000a92000a92000aa9000aa9000ab1000ab1000ab4000ab4000aba000abc",
  "000ac1000ac8000aca000aca000acd000acf000ad1000adf000ae2000ae5000af2000af8000afa000b01000b04000b04",
  "000b0d000b0e000b11000b12000b29000b29000b31000b31000b34000b34000b3a000b3c000b3e000b3f000b41000b46",
  "000b49000b4a000b4d000b5b000b5e000b5e000b62000b65000b78000b82000b84000b84000b8b000b8d000b91000b91",
  "000b96000b98000b9b000b9b000b9d000b9d000ba0000ba2000ba5000ba7000bab000bad000bba000bbe000bc0000bc0",
  "000bc3000bc5000bc9000bc9000bcd000bcf000bd1000be5000bfb000c00000c04000c04000c0d000c0d000c11000c11",
  "000c29000c29000c3a000c3c000c3e000c40000c45000c57000c5b000c5b000c5e000c5f000c62000c65000c70000c76",
  "000c81000c81000c8d000c8d000c91000c91000ca9000ca9000cb4000cb4000cba000cbc000cbf000cc0000cc2000cc2",
  "000cc5000cdb000cdf000cdf000ce2000ce5000cf0000cf0000cf4000d01000d0d000d0d000d11000d11000d3b000d3c",
  "000d3e000d3e000d41000d45000d49000d49000d4d000d4d000d50000d53000d57000d57000d62000d65000d80000d81",
  "000d84000d84000d97000d99000db2000db2000dbc000dbc000dbe000dbf000dc7000dcf000dd2000dd7000ddf000de5",
  "000df0000df1000df5000e00000e31000e31000e34000e3e000e47000e4e000e5c000e80000e83000e83000e85000e85",
  "000e8b000e8b000ea4000ea4000ea6000ea6000eb1000eb1000eb4000ebc000ebe000ebf000ec5000ec5000ec7000ecf",
  "000eda000edb000ee0000eff000f18000f19000f35000f35000f37000f37000f39000f39000f48000f48000f6d000f7e",
  "000f80000f84000f86000f87000f8d000fbd000fc6000fc6000fcd000fcd000fdb000fff00102d001030001032001037",
  "00103900103a00103d00103e00105800105900105e00106000107100107400108200108200108500108600108d00108d",
  "00109d00109d0010c60010c60010c80010cc0010ce0010cf00115f00116000124900124900124e00124f001257001257",
  "00125900125900125e00125f00128900128900128e00128f0012b10012b10012b60012b70012bf0012bf0012c10012c1",
  "0012c60012c70012d70012d700131100131100131600131700135b00135f00137d00137f00139a00139f0013f60013f7",
  "0013fe0013ff00168000168000169d00169f0016f90016ff00171200171e00173200173400173700173f00175200175f",
  "00176d00176d00177100177f0017b40017b50017b70017bd0017c60017c60017c90017d30017dd0017df0017ea0017ef",
  "0017fa0017ff00180b00180f00181a00181f00187900187f0018850018860018a90018a90018ab0018af0018f60018ff",
  "00191f00192200192700192800192c00192f00193200193200193900193f00194100194300196e00196f00197500197f",
  "0019ac0019af0019ca0019cf0019db0019dd001a17001a18001a1b001a1d001a56001a56001a58001a60001a62001a62",
  "001a65001a6c001a73001a7f001a8a001a8f001a9a001a9f001aae001b03001b34001b3d001b42001b44001b4d001b4d",
  "001b6b001b73001b80001b81001ba2001ba5001ba8001bad001be6001be6001be8001be9001bed001bed001bef001bfb",
  "001c2c001c33001c36001c3a001c4a001c4c001c8b001c8f001cbb001cbc001cc8001cd2001cd4001ce0001ce2001ce8",
  "001ced001ced001cf4001cf4001cf8001cf9001cfb001cff001dc0001dff001f16001f17001f1e001f1f001f46001f47",
  "001f4e001f4f001f58001f58001f5a001f5a001f5c001f5c001f5e001f5e001f7e001f7f001fb5001fb5001fc5001fc5",
  "001fd4001fd5001fdc001fdc001ff0001ff1001ff5001ff5001fff00200f00202800202f00205f00206f002072002073",
  "00208f00208f00209d00209f0020c20020ff00218c00218f00242a00243f00244b00245f002b74002b75002cef002cf1",
  "002cf4002cf8002d26002d26002d28002d2c002d2e002d2f002d68002d6e002d71002d7f002d97002d9f002da7002da7",
  "002daf002daf002db7002db7002dbf002dbf002dc7002dc7002dcf002dcf002dd7002dd7002ddf002dff002e5e002e7f",
  "002e9a002e9a002ef4002eff002fd6002fef00300000300000302a00302f00304000304000309700309a003100003104",
  "00313000313000316400316400318f00318f0031e60031ee00321f00321f00a48d00a48f00a4c700a4cf00a62c00a63f",
  "00a66f00a67200a67400a67d00a69e00a69f00a6f000a6f100a6f800a6ff00a7dd00a7f000a80200a80200a80600a806",
  "00a80b00a80b00a82500a82600a82c00a82f00a83a00a83f00a87800a87f00a8c400a8cd00a8da00a8f100a8ff00a8ff",
  "00a92600a92d00a94700a95100a95300a95e00a97d00a98200a9b300a9b300a9b600a9b900a9bc00a9bd00a9c000a9c0",
  "00a9ce00a9ce00a9da00a9dd00a9e500a9e500a9ff00a9ff00aa2900aa2e00aa3100aa3200aa3500aa3f00aa4300aa43",
  "00aa4c00aa4c00aa4e00aa4f00aa5a00aa5b00aa7c00aa7c00aab000aab000aab200aab400aab700aab800aabe00aabf",
  "00aac100aac100aac300aada00aaec00aaed00aaf600ab0000ab0700ab0800ab0f00ab1000ab1700ab1f00ab2700ab27",
  "00ab2f00ab2f00ab6c00ab6f00abe500abe500abe800abe800abed00abef00abfa00abff00d7a400d7af00d7c700d7ca",
  "00d7fc00f8ff00fa6e00fa6f00fada00faff00fb0700fb1200fb1800fb1c00fb1e00fb1e00fb3700fb3700fb3d00fb3d",
  "00fb3f00fb3f00fb4200fb4200fb4500fb4500fdd000fdef00fe0000fe0f00fe1a00fe2f00fe5300fe5300fe6700fe67",
  "00fe6c00fe6f00fe7500fe7500fefd00ff0000ffa000ffa000ffbf00ffc100ffc800ffc900ffd000ffd100ffd800ffd9",
  "00ffdd00ffdf00ffe700ffe700ffef00fffb00fffe00ffff01000c01000c01002701002701003b01003b01003e01003e",
  "01004e01004f01005e01007f0100fb0100ff01010301010601013401013601018f01018f01019d01019f0101a10101cf",
  "0101fd01027f01029d01029f0102d10102e00102fc0102ff01032401032c01034b01034f01037601037f01039e01039e",
  "0103c40103c70103d60103ff01049e01049f0104aa0104af0104d40104d70104fc0104ff01052801052f01056401056e",
  "01057b01057b01058b01058b0105930105930105960105960105a20105a20105b20105b20105ba0105ba0105bd0105bf",
  "0105f40105ff01073701073f01075601075f01076801077f0107860107860107b10107b10107bb0107ff010806010807",
  "01080901080901083601083601083901083b01083d01083e01085601085601089f0108a60108b00108df0108f30108f3",
  "0108f60108fa01091c01091e01093a01093e01095a01097f0109b80109bb0109d00109d1010a01010a0f010a14010a14",
  "010a18010a18010a36010a3f010a49010a4f010a59010a5f010aa0010abf010ae5010aea010af7010aff010b36010b38",
  "010b56010b57010b73010b77010b92010b98010b9d010ba8010bb0010bff010c49010c7f010cb3010cbf010cf3010cf9",
  "010d24010d2f010d3a010d3f010d66010d6d010d86010d8d010d90010e5f010e7f010e7f010eaa010eac010eae010eaf",
  "010eb2010ec1010ec8010ecf010ed9010eff010f28010f2f010f46010f50010f5a010f6f010f82010f85010f8a010faf",
  "010fcc010fdf010ff7010fff01100101100101103801104601104e011051011070011070011073011074011076011081",
  "0110b30110b60110b90110ba0110bd0110bd0110c20110cf0110e90110ef0110fa01110201112701112b01112d011135",
  "01114801114f0111730111730111770111810111b60111be0111c00111c00111c90111cc0111cf0111cf0111e00111e0",
  "0111f50111ff01121201121201122f01123101123401123701123e01123e01124101127f011287011287011289011289",
  "01128e01128e01129e01129e0112aa0112af0112df0112df0112e30112ef0112fa01130101130401130401130d01130e",
  "01131101131201132901132901133101133101133401133401133a01133c01133e01133e011340011340011345011346",
  "01134901134a01134d01134f01135101135c01136401137f01138a01138a01138c01138d01138f01138f0113b60113b6",
  "0113b80113b80113bb0113c90113cb0113cb0113ce0113d00113d20113d20113d60113d60113d90113ff01143801143f",
  "01144201144401144601144601145c01145c01145e01145e01146201147f0114b00114b00114b30114b80114ba0114ba",
  "0114bd0114bd0114bf0114c00114c20114c30114c80114cf0114da01157f0115af0115af0115b20115b70115bc0115bd",
  "0115bf0115c00115dc0115ff01163301163a01163d01163d01163f01164001164501164f01165a01165f01166d01167f",
  "0116ab0116ab0116ad0116ad0116b00116b70116ba0116bf0116ca0116cf0116e40116ff01171b01171d01171f01171f",
  "01172201172501172701172f0117470117ff01182f01183701183901183a01183c01189f0118f30118fe011907011908",
  "01190a01190b01191401191401191701191701193001193001193601193601193901193e01194301194301194701194f",
  "01195a01199f0119a80119a90119d40119db0119e00119e00119e50119ff011a01011a0a011a33011a38011a3b011a3e",
  "011a47011a4f011a51011a56011a59011a5b011a8a011a96011a98011a99011aa3011aaf011af9011aff011b0a011b60",
  "011b62011b64011b66011b66011b68011bbf011be2011bef011bfa011bff011c09011c09011c30011c3d011c3f011c3f",
  "011c46011c4f011c6d011c6f011c90011ca8011caa011cb0011cb2011cb3011cb5011cff011d07011d07011d0a011d0a",
  "011d31011d45011d47011d4f011d5a011d5f011d66011d66011d69011d69011d8f011d92011d95011d95011d97011d97",
  "011d99011d9f011daa011daf011ddc011ddf011dea011edf011ef3011ef4011ef9011f01011f11011f11011f36011f3d",
  "011f40011f42011f5a011faf011fb1011fbf011ff2011ffe01239a0123ff01246f01246f01247501247f012544012f8f",
  "012ff3012fff01343001344001344701345f0143fb0143ff0146470160ff01611e01612901612d01612f01613a0167ff",
  "016a39016a3f016a5f016a5f016a6a016a6d016abf016abf016aca016acf016aee016af4016af6016aff016b30016b36",
  "016b46016b4f016b5a016b5a016b62016b62016b78016b7c016b90016d3f016d7a016e3f016e9b016e9f016eb9016eba",
  "016ed4016eff016f4b016f4f016f88016f92016fa0016fdf016fe4016ff1016ff7016fff018cd6018cfe018d1f018d7f",
  "018df301afef01aff401aff401affc01affc01afff01afff01b12301b13101b13301b14f01b15301b15401b15601b163",
  "01b16801b16f01b2fc01bbff01bc6b01bc6f01bc7d01bc7f01bc8901bc8f01bc9a01bc9b01bc9d01bc9e01bca001cbff",
  "01ccfd01ccff01ceb401ceb901ced101cedf01cef101cf4f01cfc401cfff01d0f601d0ff01d12701d12801d16501d169",
  "01d16d01d18201d18501d18b01d1aa01d1ad01d1eb01d1ff01d24201d24401d24601d2bf01d2d401d2df01d2f401d2ff",
  "01d35701d35f01d37901d3ff01d45501d45501d49d01d49d01d4a001d4a101d4a301d4a401d4a701d4a801d4ad01d4ad",
  "01d4ba01d4ba01d4bc01d4bc01d4c401d4c401d50601d50601d50b01d50c01d51501d51501d51d01d51d01d53a01d53a",
  "01d53f01d53f01d54501d54501d54701d54901d55101d55101d6a601d6a701d7cc01d7cd01da0001da3601da3b01da6c",
  "01da7501da7501da8401da8401da8c01deff01df1f01df2401df2b01e02f01e06e01e0ff01e12d01e13601e13e01e13f",
  "01e14a01e14d01e15001e28f01e2ae01e2bf01e2ec01e2ef01e2fa01e2fe01e30001e4cf01e4ec01e4ef01e4fa01e5cf",
  "01e5ee01e5ef01e5fb01e5fe01e60001e6bf01e6df01e6df01e6e301e6e301e6e601e6e601e6ee01e6ef01e6f501e6fd",
  "01e70001e7df01e7e701e7e701e7ec01e7ec01e7ef01e7ef01e7ff01e7ff01e8c501e8c601e8d001e8ff01e94401e94a",
  "01e94c01e94f01e95a01e95d01e96001ec7001ecb501ed0001ed3e01edff01ee0401ee0401ee2001ee2001ee2301ee23",
  "01ee2501ee2601ee2801ee2801ee3301ee3301ee3801ee3801ee3a01ee3a01ee3c01ee4101ee4301ee4601ee4801ee48",
  "01ee4a01ee4a01ee4c01ee4c01ee5001ee5001ee5301ee5301ee5501ee5601ee5801ee5801ee5a01ee5a01ee5c01ee5c",
  "01ee5e01ee5e01ee6001ee6001ee6301ee6301ee6501ee6601ee6b01ee6b01ee7301ee7301ee7801ee7801ee7d01ee7d",
  "01ee7f01ee7f01ee8a01ee8a01ee9c01eea001eea401eea401eeaa01eeaa01eebc01eeef01eef201efff01f02c01f02f",
  "01f09401f09f01f0af01f0b001f0c001f0c001f0d001f0d001f0f601f0ff01f1ae01f1e501f20301f20f01f23c01f23f",
  "01f24901f24f01f25201f25f01f26601f2ff01f6d901f6db01f6ed01f6ef01f6fd01f6ff01f7da01f7df01f7ec01f7ef",
  "01f7f101f7ff01f80c01f80f01f84801f84f01f85a01f85f01f88801f88f01f8ae01f8af01f8bc01f8bf01f8c201f8cf",
  "01f8d901f8ff01fa5801fa5f01fa6e01fa6f01fa7d01fa7f01fa8b01fa8d01fac701fac701fac901facc01fadd01fade",
  "01faeb01faee01faf901faff01fb9301fb9301fbfb01ffff02a6e002a6ff02b81e02b81f02ceae02ceaf02ebe102ebef",
  "02ee5e02f7ff02fa1e02ffff03134b03134f03347a10ffff"]

def lowerHexValue (c : Char) : Nat :=
  if c.isDigit then c.toNat - 48 else c.toNat - 87

def lowerHexNumber (cs : List Char) : Nat := cs.foldl (fun n c => 16 * n + lowerHexValue c) 0

def readRanges : Nat → List Char → Array (Nat × Nat) → Array (Nat × Nat)
  | 0, _, acc => acc
  | n + 1, cs, acc =>
    if cs.length < 12 then acc
    else readRanges n (cs.drop 12) (acc.push (lowerHexNumber (cs.take 6), lowerHexNumber ((cs.drop 6).take 6)))

/-- The ranges of hidden code points, first and last, in increasing order. -/
def hiddenRanges : Array (Nat × Nat) :=
  readRanges (hiddenTable.length / 12 + 1) hiddenTable.toList #[]

/-- A character that does not print on its own or joins the one before it. -/
def isHidden (c : Char) : Bool :=
  hiddenRanges.any fun (lo, hi) => lo ≤ c.toNat && c.toNat ≤ hi

namespace Json

def hexDigit (n : Nat) : Char :=
  if n < 10 then Char.ofNat (48 + n) else Char.ofNat (87 + n)

def escapeChar (c : Char) : List Char :=
  if c = '"' then ['\\', '"']
  else if c = '\\' then ['\\', '\\']
  else if c = '\n' then ['\\', 'n']
  else if c = '\r' then ['\\', 'r']
  else if c = '\t' then ['\\', 't']
  else if c.toNat = 8 then ['\\', 'b']
  else if c.toNat = 12 then ['\\', 'f']
  else if c.toNat < 32 then ['\\', 'u', '0', '0', hexDigit (c.toNat / 16), hexDigit (c.toNat % 16)]
  else [c]

/-- The JSON string literal of `s`, quotes included. -/
def quote (s : String) : String :=
  String.ofList ('"' :: (s.toList.flatMap escapeChar ++ ['"']))

end Json

namespace Quoted

def hexDigits (n : Nat) : List Char :=
  if n < 16 then [Json.hexDigit n] else hexDigits (n / 16) ++ [Json.hexDigit (n % 16)]

def escapeChar (c : Char) : List Char :=
  if c = '"' then ['\\', '"']
  else if c = '\\' then ['\\', '\\']
  else if c = '\n' then ['\\', 'n']
  else if c = '\r' then ['\\', 'r']
  else if c = '\t' then ['\\', 't']
  else if c.toNat = 0 then ['\\', '0']
  else if isHidden c then ['\\', 'u', '\x7b'] ++ hexDigits c.toNat ++ ['\x7d']
  else [c]

/-- `s` between double quotes, escaped as above. -/
def quote (s : String) : String :=
  String.ofList ('"' :: (s.toList.flatMap escapeChar ++ ['"']))

end Quoted

end ProtoSchema
