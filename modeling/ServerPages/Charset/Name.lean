import ServerPages.Charset.Basic
import ServerPages.Unicode.Space

/-!
# Names of encodings

An encoding is known by the names registered for it and by the labels that web pages use. Where a
name is registered for one encoding and used as a label for another, the registered one counts: the
name `latin1` stands for ISO-8859-1, while the label `iso88591`, which is not registered, stands for
windows-1252. Case and white space around a name do not matter.
-/

namespace ServerPages.Charset

/-- A character in lower case, as far as the result may occur in a name. -/
def lowerChar (c : Nat) : Nat :=
  if 0x41 ≤ c && c ≤ 0x5A then c + 0x20
  else if c == 0x212A then 0x6B
  else if c == 0x130 then 0x69
  else c

/-- A name without white space around it and in lower case. -/
def normalized (name : Bytes) : Bytes :=
  Utf8.encodeAll ((Utf8.chars name.trimSpace).map lowerChar)

/-- The names of the encodings that pages are read in, each in lower case. -/
def names : List (List String × Charset) := [
  (["us-ascii", "iso-ir-6", "ansi_x3.4-1968", "ansi_x3.4-1986", "iso_646.irv:1991", "iso646-us",
    "us", "ibm367", "cp367", "csascii"], ascii),
  (["utf-8", "utf8", "unicode-1-1-utf-8", "csutf8", "unicode11utf8", "unicode20utf8",
    "x-unicode20utf8"], .utf8),
  (["utf-16be", "csutf16be", "utf-16", "csutf16", "unicodefffe"], .utf16 .big),
  (["utf-16le", "csutf16le", "csunicode", "iso-10646-ucs-2", "ucs-2", "unicode", "unicodefeff"],
    .utf16 .little),
  (["ibm037", "cp037", "ebcdic-cp-us", "ebcdic-cp-ca", "ebcdic-cp-wt", "ebcdic-cp-nl", "csibm037"],
    .singleByte ibm037),
  (["ibm1047", "ibm-1047", "csibm1047"], .singleByte ibm1047),
  (["ibm01140", "ccsid01140", "cp01140", "ebcdic-us-37+euro", "csibm01140"], .singleByte ibm1140),
  (["iso-8859-1", "iso_8859-1:1987", "iso-ir-100", "iso_8859-1", "latin1", "l1", "ibm819", "cp819",
    "csisolatin1"], .singleByte (overAscii latin1)),
  (["iso-8859-2", "iso_8859-2:1987", "iso-ir-101", "iso_8859-2", "latin2", "l2", "csisolatin2",
    "iso8859-2", "iso88592"], .singleByte (overAscii latin2)),
  (["iso-8859-3", "iso_8859-3:1988", "iso-ir-109", "iso_8859-3", "latin3", "l3", "csisolatin3",
    "iso8859-3", "iso88593"], .singleByte (overAscii latin3)),
  (["iso-8859-4", "iso_8859-4:1988", "iso-ir-110", "iso_8859-4", "latin4", "l4", "csisolatin4",
    "iso8859-4", "iso88594"], .singleByte (overAscii latin4)),
  (["iso-8859-5", "iso_8859-5:1988", "iso-ir-144", "iso_8859-5", "cyrillic", "csisolatincyrillic",
    "iso8859-5", "iso88595"], .singleByte (overAscii cyrillic)),
  (["iso-8859-6", "iso_8859-6:1987", "iso-ir-127", "iso_8859-6", "ecma-114", "asmo-708", "arabic",
    "csisolatinarabic", "iso-8859-6-e", "iso_8859-6-e", "csiso88596e", "iso-8859-6-i",
    "iso_8859-6-i", "csiso88596i", "iso8859-6", "iso88596"], .singleByte (overAscii arabic)),
  (["iso-8859-7", "iso_8859-7:1987", "iso-ir-126", "iso_8859-7", "elot_928", "ecma-118", "greek",
    "greek8", "csisolatingreek", "iso8859-7", "iso88597", "sun_eu_greek"],
    .singleByte (overAscii greek)),
  (["iso-8859-8", "iso_8859-8:1988", "iso-ir-138", "iso_8859-8", "hebrew", "csisolatinhebrew",
    "iso-8859-8-e", "iso_8859-8-e", "csiso88598e", "iso-8859-8-i", "iso_8859-8-i", "csiso88598i",
    "iso8859-8", "iso88598", "visual", "logical"], .singleByte (overAscii hebrew)),
  (["iso-8859-9", "iso_8859-9:1989", "iso-ir-148", "iso_8859-9", "latin5", "l5", "csisolatin5"],
    .singleByte (overAscii latin5)),
  (["iso-8859-10", "iso_8859-10:1992", "iso-ir-157", "l6", "latin6", "csisolatin6", "iso8859-10",
    "iso885910"], .singleByte (overAscii latin6)),
  (["iso-8859-13", "csiso885913", "iso8859-13", "iso885913"], .singleByte (overAscii latin7)),
  (["iso-8859-14", "iso-ir-199", "iso_8859-14:1998", "iso_8859-14", "latin8", "iso-celtic", "l8",
    "csiso885914", "iso8859-14", "iso885914"], .singleByte (overAscii latin8)),
  (["iso-8859-15", "iso_8859-15", "latin-9", "csiso885915", "csisolatin9", "iso8859-15",
    "iso885915", "l9"], .singleByte (overAscii latin9)),
  (["iso-8859-16", "iso-ir-226", "iso_8859-16:2001", "iso_8859-16", "latin10", "l10",
    "csiso885916"], .singleByte (overAscii latin10)),
  (["koi8-r", "cskoi8r", "koi", "koi8", "koi8_r"], .singleByte (overAscii koi8r)),
  (["koi8-u", "cskoi8u", "koi8-ru"], .singleByte (overAscii koi8u)),
  (["macintosh", "mac", "csmacintosh", "x-mac-roman"], .singleByte (overAscii macintosh)),
  (["x-mac-cyrillic", "x-mac-ukrainian"], .singleByte (overAscii macCyrillic)),
  (["windows-874", "cswindows874", "dos-874", "iso-8859-11", "iso8859-11", "iso885911", "tis-620"],
    .singleByte (overAscii windows874)),
  (["windows-1250", "cswindows1250", "cp1250", "x-cp1250"], .singleByte (overAscii windows1250)),
  (["windows-1251", "cswindows1251", "cp1251", "x-cp1251"], .singleByte (overAscii windows1251)),
  (["windows-1252", "cswindows1252", "cp1252", "x-cp1252", "ascii", "iso8859-1", "iso88591"],
    .singleByte (overAscii windows1252)),
  (["windows-1253", "cswindows1253", "cp1253", "x-cp1253"], .singleByte (overAscii windows1253)),
  (["windows-1254", "cswindows1254", "cp1254", "x-cp1254", "iso8859-9", "iso88599"],
    .singleByte (overAscii windows1254)),
  (["windows-1255", "cswindows1255", "cp1255", "x-cp1255"], .singleByte (overAscii windows1255)),
  (["windows-1256", "cswindows1256", "cp1256", "x-cp1256"], .singleByte (overAscii windows1256)),
  (["windows-1257", "cswindows1257", "cp1257", "x-cp1257"], .singleByte (overAscii windows1257)),
  (["windows-1258", "cswindows1258", "cp1258", "x-cp1258"], .singleByte (overAscii windows1258)),
  (["ibm437", "cp437", "437", "cspc8codepage437"], .singleByte (overAscii ibm437)),
  (["ibm850", "cp850", "850", "cspc850multilingual"], .singleByte (overAscii ibm850)),
  (["ibm852", "cp852", "852", "cspcp852"], .singleByte (overAscii ibm852)),
  (["ibm855", "cp855", "855", "csibm855"], .singleByte (overAscii ibm855)),
  (["ibm00858", "ccsid00858", "cp00858", "pc-multilingual-850+euro", "csibm00858"],
    .singleByte (overAscii ibm858)),
  (["ibm860", "cp860", "860", "csibm860"], .singleByte (overAscii ibm860)),
  (["ibm862", "cp862", "862", "cspc862latinhebrew"], .singleByte (overAscii ibm862)),
  (["ibm863", "cp863", "863", "csibm863"], .singleByte (overAscii ibm863)),
  (["ibm865", "cp865", "865", "csibm865"], .singleByte (overAscii ibm865)),
  (["ibm866", "cp866", "866", "csibm866"], .singleByte (overAscii ibm866)),
  (["x-user-defined"], .singleByte (overAscii userDefined)),
  (["shift_jis", "ms_kanji", "csshiftjis", "shift-jis", "sjis", "windows-31j", "x-sjis", "ms932",
    "euc-jp", "extended_unix_code_packed_format_for_japanese", "cseucpkdfmtjapanese", "x-euc-jp",
    "iso-2022-jp", "csiso2022jp"], ascii),
  (["gbk", "cp936", "ms936", "windows-936", "csgbk", "chinese", "csgb2312", "csiso58gb231280",
    "gb2312", "gb_2312", "gb_2312-80", "iso-ir-58", "x-gbk", "gb18030", "csgb18030", "hz-gb-2312",
    "cshzgb2312", "big5", "csbig5", "big5-hkscs", "cn-big5", "x-x-big5"], ascii),
  (["euc-kr", "cseuckr", "csksc56011987", "iso-ir-149", "korean", "ks_c_5601-1987",
    "ks_c_5601-1989", "ksc5601", "ksc_5601", "windows-949"], ascii),
  (["iso-2022-kr", "csiso2022kr", "iso-2022-cn", "iso-2022-cn-ext", "replacement"], .refusing)]

/-- The encoding of a name. -/
def ofName? (name : Bytes) : Option Charset :=
  let n := normalized name
  (names.find? fun e => e.1.any fun s => Bytes.ofString s == n).map (·.2)

/-- The registered names and the labels, each with the way to read its encoding. -/
def registered (name : Bytes) : Option (Bytes → Bytes) := (ofName? name).map decode

end ServerPages.Charset
