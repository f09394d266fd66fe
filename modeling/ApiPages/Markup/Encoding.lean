import ApiPages.Markup.Document

/-! Documents as bytes: the byte order mark and the declaration say how to read them. -/
namespace ApiPages.Markup

/-- The encodings in which documents are read. -/
inductive Encoding where
  | utf8
  | utf16 (bigEndian : Bool)
  /-- One byte for a character, by the characters of the bytes from 0x80 on; some bytes have none. -/
  | bytewise (upper : List (Option Char))
  deriving DecidableEq

namespace Encoding

def units? (bigEndian : Bool) : List UInt8 → Option (List Nat)
  | [] => some []
  | [_] => none
  | a :: b :: rest => do
    let unit := if bigEndian then a.toNat * 256 + b.toNat else b.toNat * 256 + a.toNat
    return unit :: (← units? bigEndian rest)

/-- Characters from sixteen-bit units; surrogates come in pairs only. -/
def ofUnits? : List Nat → Option Text
  | [] => some []
  | u :: rest =>
    if 0xD800 ≤ u && u < 0xDC00 then
      match rest with
      | v :: rest =>
        if 0xDC00 ≤ v && v < 0xE000 then do
          return Char.ofNat (0x10000 + (u - 0xD800) * 0x400 + (v - 0xDC00)) :: (← ofUnits? rest)
        else none
      | [] => none
    else if 0xDC00 ≤ u && u < 0xE000 then none
    else do return Char.ofNat u :: (← ofUnits? rest)

def ofUtf8? (bytes : List UInt8) : Option Text :=
  (String.fromUTF8? ⟨bytes.toArray⟩).map String.toList

/-- The character of a byte, where those from 0x80 on are given. -/
def ofByte? (upper : List (Option Char)) (b : UInt8) : Option Char :=
  if b < 0x80 then some (Char.ofNat b.toNat) else (upper[b.toNat - 0x80]?).join

def decode? (encoding : Encoding) (bytes : List UInt8) : Option Text :=
  match encoding with
  | .utf8 => ofUtf8? bytes
  | .utf16 bigEndian => do ofUnits? (← units? bigEndian bytes)
  | .bytewise upper => bytes.mapM (ofByte? upper)

/-- No byte from 0x80 on is a character. -/
def ascii : Encoding := .bytewise []

/-- Characters of the first 256 codes, of which some are others. -/
def latin (others : List (Nat × Option Nat)) : Encoding :=
  .bytewise ((List.range 0x80).map fun n =>
    match others.lookup (0x80 + n) with
    | none => some (Char.ofNat (0x80 + n))
    | some code => code.map Char.ofNat)

def latin1 : Encoding := latin []

def windows1252 : Encoding := latin [
  (0x80, some 0x20AC), (0x81, none), (0x82, some 0x201A), (0x83, some 0x192),
  (0x84, some 0x201E), (0x85, some 0x2026), (0x86, some 0x2020), (0x87, some 0x2021),
  (0x88, some 0x2C6), (0x89, some 0x2030), (0x8A, some 0x160), (0x8B, some 0x2039),
  (0x8C, some 0x152), (0x8D, none), (0x8E, some 0x17D), (0x8F, none), (0x90, none),
  (0x91, some 0x2018), (0x92, some 0x2019), (0x93, some 0x201C), (0x94, some 0x201D),
  (0x95, some 0x2022), (0x96, some 0x2013), (0x97, some 0x2014), (0x98, some 0x2DC),
  (0x99, some 0x2122), (0x9A, some 0x161), (0x9B, some 0x203A), (0x9C, some 0x153),
  (0x9D, none), (0x9E, some 0x17E), (0x9F, some 0x178)]

def latin9 : Encoding := latin [
  (0xA4, some 0x20AC), (0xA6, some 0x160), (0xA8, some 0x161), (0xB4, some 0x17D),
  (0xB8, some 0x17E), (0xBC, some 0x152), (0xBD, some 0x153), (0xBE, some 0x178)]

/-- The encoding that the first bytes give away, and the bytes behind the mark of their order. -/
def detect : List UInt8 → Encoding × List UInt8
  | 0xFE :: 0xFF :: rest => (.utf16 true, rest)
  | 0xFF :: 0xFE :: rest => (.utf16 false, rest)
  | 0xEF :: 0xBB :: 0xBF :: rest => (.utf8, rest)
  | 0x00 :: rest => (.utf16 true, 0x00 :: rest)
  | a :: 0x00 :: rest => (.utf16 false, a :: 0x00 :: rest)
  | bytes => (.utf8, bytes)

/-- Encodings by the names that are made for parsers of all kinds, in small letters. -/
def codecs : List (Text × Encoding) :=
  let named (encoding : Encoding) (names : List String) := names.map fun n => (n.toList, encoding)
  -- The bytes of a character of several are not told apart from others.
  named ascii ["utf_8", "utf8", "utf", "u8", "utf_8_sig", "cp65001", "ascii", "us_ascii", "us",
    "ansi_x3.4_1968", "ansi_x3_4_1968", "csascii", "cp367", "ibm367", "iso646_us", "iso_ir_6"] ++
  named latin1 ["latin_1", "latin1", "latin", "l1", "iso8859_1", "iso8859", "iso_8859_1",
    "iso_8859_1_1987", "iso_ir_100", "csisolatin1", "cp819", "ibm819"] ++
  named windows1252 ["cp1252", "windows_1252"] ++
  named latin9 ["iso8859_15", "iso_8859_15", "latin9", "l9"]

/-- Names of encodings with characters of several bytes. -/
def multiByteCodecs : List Text :=
  ["utf_7", "utf7", "utf_16", "utf16", "utf_16_be", "utf_16be", "utf_16_le", "utf_16le", "utf_32",
    "utf32", "utf_32_be", "utf_32be", "utf_32_le", "utf_32le", "big5", "big5hkscs", "cp932",
    "cp949", "cp950", "euc_jp", "eucjp", "euc_kr", "euckr", "gb2312", "gb18030", "gbk", "cp936",
    "johab", "ms_kanji", "shift_jis", "shiftjis", "sjis"].map String.toList

/-- A name in small letters, with one underscore for every run of other signs than points. -/
def codecName (name : Text) : Text :=
  Text.replaceRuns (· = '_') '_' ((Text.exchange '-' '_' name).map Char.toLower)

def ofCodec (name : Text) : Except ReadError Encoding :=
  match codecs.lookup (codecName name) with
  | some encoding => .ok encoding
  | none =>
    if multiByteCodecs.contains (codecName name) then .error .multiByteEncoding
    else .error (.unknownEncoding name)

/-- The encoding under a declared name, where another was detected. Both have units of one size. -/
def named (detected : Encoding) (name : Text) : Except ReadError Encoding :=
  let given := name.map Char.toUpper
  let utf16Names := ["UTF-16".toList, "UTF-16BE".toList, "UTF-16LE".toList]
  let byteNames :=
    [("UTF-8".toList, utf8), ("ISO-8859-1".toList, latin1), ("US-ASCII".toList, ascii)]
  match detected with
  | .utf16 bigEndian =>
    if given = "UTF-16".toList || given = (if bigEndian then "UTF-16BE" else "UTF-16LE").toList then
      .ok detected
    else if utf16Names.contains given || (byteNames.lookup given).isSome then .error .notWellFormed
    else do
      -- Read byte by byte, what follows has a zero in it.
      let _ ← ofCodec name
      .error .notWellFormed
  | _ =>
    match byteNames.lookup given with
    | some encoding => .ok encoding
    | none => if utf16Names.contains given then .error .notWellFormed else ofCodec name

/-- The encoding in which to read bytes that were detected as another one: the declared one. -/
def declared (detected : Encoding) (bytes : List UInt8) : Except ReadError Encoding :=
  let start :=
    match detected with
    | .utf16 _ => detected.decode? bytes
    | _ => latin1.decode? bytes
  match start.bind Declaration.read? with
  | none => .error .notWellFormed
  | some (some ⟨some name, _⟩, _) => detected.named name
  | some _ => .ok detected

end Encoding

def Element.ofBytes (bytes : List UInt8) : Except ReadError Element := do
  let (detected, rest) := Encoding.detect bytes
  let encoding ← detected.declared rest
  match (encoding.decode? rest).bind Element.ofMarked? with
  | some root => .ok root
  | none => .error .notWellFormed

end ApiPages.Markup
