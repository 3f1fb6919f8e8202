import ServerPages.Text.Utf8

/-!
# Tables of single-byte encodings

Most single-byte encodings agree with ASCII on the bytes below 0x80, and a table gives the
characters of the bytes from 0x80 on. The encodings of mainframes have tables of their own for all
bytes. A table is written as a text, or as runs of successive characters where these are shorter;
a byte without a character has the replacement character. The encodings of the web
have no control characters from 0x80 on.
-/

namespace ServerPages.Charset

/-- The characters of a run: its first character and the ones after it, or the replacement character
again and again. -/
def runChars (first length : Nat) : List Nat :=
  if first == Utf8.replacement then List.replicate length first else List.range' first length

/-- The characters of some runs, each given by its first character and its length. -/
def ofRuns (runs : List (Nat × Nat)) : List Nat := runs.flatMap fun r => runChars r.1 r.2

/-- The characters of a text. -/
def ofText (s : String) : List Nat := s.toList.map Char.toNat

/-- The table of an encoding that agrees with ASCII and has the given characters from 0x80 on. -/
def overAscii (upper : List Nat) : List Nat := List.range 128 ++ upper

/-- The upper half of ISO-8859-1. -/
def latin1 : List Nat := ofRuns [
  (0x80, 128)]

/-- The upper half of ISO-8859-2. -/
def latin2 : List Nat := ofRuns [(0xFFFD, 32)] ++ ofText (
  "\u00a0Ą˘Ł¤ĽŚ§¨ŠŞŤŹ\u00adŽŻ°ą˛ł´ľśˇ¸šşťź˝žżŔÁÂĂÄĹĆÇČÉĘËĚÍÎĎĐŃŇÓÔŐÖ×ŘŮÚŰÜÝŢßŕáâăäĺćçčéęëěí" ++
  "îďđńňóôőö÷řůúűüýţ˙")

/-- The upper half of ISO-8859-3. -/
def latin3 : List Nat := ofRuns [(0xFFFD, 32)] ++ ofText (
  "\u00a0Ħ˘£¤\ufffdĤ§¨İŞĞĴ\u00ad\ufffdŻ°ħ²³´µĥ·¸ışğĵ½\ufffdżÀÁÂ\ufffdÄĊĈÇÈÉÊËÌÍÎÏ\ufffdÑÒÓÔ" ++
  "ĠÖ×ĜÙÚÛÜŬŜßàáâ\ufffdäċĉçèéêëìíîï\ufffdñòóôġö÷ĝùúûüŭŝ˙")

/-- The upper half of ISO-8859-4. -/
def latin4 : List Nat := ofRuns [(0xFFFD, 32)] ++ ofText (
  "\u00a0ĄĸŖ¤ĨĻ§¨ŠĒĢŦ\u00adŽ¯°ą˛ŗ´ĩļˇ¸šēģŧŊžŋĀÁÂÃÄÅÆĮČÉĘËĖÍÎĪĐŅŌĶÔÕÖ×ØŲÚÛÜŨŪßāáâãäåæįčéęëėí" ++
  "îīđņōķôõö÷øųúûüũū˙")

/-- The upper half of ISO-8859-5. -/
def cyrillic : List Nat := ofRuns [
  (0xFFFD, 32), (0xA0, 1), (0x401, 12), (0xAD, 1), (0x40E, 66), (0x2116, 1), (0x451, 12), (0xA7, 1),
  (0x45E, 2)]

/-- The upper half of ISO-8859-6. -/
def arabic : List Nat := ofRuns [
  (0xFFFD, 32), (0xA0, 1), (0xFFFD, 3), (0xA4, 1), (0xFFFD, 7), (0x60C, 1), (0xAD, 1), (0xFFFD, 13),
  (0x61B, 1), (0xFFFD, 3), (0x61F, 1), (0xFFFD, 1), (0x621, 26), (0xFFFD, 5), (0x640, 19),
  (0xFFFD, 13)]

/-- The upper half of ISO-8859-7. -/
def greek : List Nat := ofRuns [
  (0xFFFD, 32), (0xA0, 1), (0x2018, 2), (0xA3, 1), (0x20AC, 1), (0x20AF, 1), (0xA6, 4), (0x37A, 1),
  (0xAB, 3), (0xFFFD, 1), (0x2015, 1), (0xB0, 4), (0x384, 3), (0xB7, 1), (0x388, 3), (0xBB, 1),
  (0x38C, 1), (0xBD, 1), (0x38E, 20), (0xFFFD, 1), (0x3A3, 44), (0xFFFD, 1)]

/-- The upper half of ISO-8859-8. -/
def hebrew : List Nat := ofRuns [
  (0xFFFD, 32), (0xA0, 1), (0xFFFD, 1), (0xA2, 8), (0xD7, 1), (0xAB, 15), (0xF7, 1), (0xBB, 4),
  (0xFFFD, 32), (0x2017, 1), (0x5D0, 27), (0xFFFD, 2), (0x200E, 2), (0xFFFD, 1)]

/-- The upper half of ISO-8859-9. -/
def latin5 : List Nat := ofRuns [
  (0x80, 80), (0x11E, 1), (0xD1, 12), (0x130, 1), (0x15E, 1), (0xDF, 17), (0x11F, 1), (0xF1, 12),
  (0x131, 1), (0x15F, 1), (0xFF, 1)]

/-- The upper half of ISO-8859-10. -/
def latin6 : List Nat := ofRuns [(0xFFFD, 32)] ++ ofText (
  "\u00a0ĄĒĢĪĨĶ§ĻĐŠŦŽ\u00adŪŊ°ąēģīĩķ·ļđšŧž―ūŋĀÁÂÃÄÅÆĮČÉĘËĖÍÎÏÐŅŌÓÔÕÖŨØŲÚÛÜÝÞßāáâãäåæįčéęëėí" ++
  "îïðņōóôõöũøųúûüýþĸ")

/-- The upper half of ISO-8859-13. -/
def latin7 : List Nat := ofRuns [(0xFFFD, 32)] ++ ofText (
  "\u00a0”¢£¤„¦§Ø©Ŗ«¬\u00ad®Æ°±²³“µ¶·ø¹ŗ»¼½¾æĄĮĀĆÄÅĘĒČÉŹĖĢĶĪĻŠŃŅÓŌÕÖ×ŲŁŚŪÜŻŽßąįāćäåęēčéźėģķ" ++
  "īļšńņóōõö÷ųłśūüżž’")

/-- The upper half of ISO-8859-14. -/
def latin8 : List Nat := ofRuns [(0xFFFD, 32)] ++ ofText (
  "\u00a0Ḃḃ£ĊċḊ§Ẁ©ẂḋỲ\u00ad®ŸḞḟĠġṀṁ¶ṖẁṗẃṠỳẄẅṡÀÁÂÃÄÅÆÇÈÉÊËÌÍÎÏŴÑÒÓÔÕÖṪØÙÚÛÜÝŶßàáâãäåæçèéêëìí" ++
  "îïŵñòóôõöṫøùúûüýŷÿ")

/-- The upper half of ISO-8859-15. -/
def latin9 : List Nat := ofRuns [
  (0xFFFD, 32), (0xA0, 4), (0x20AC, 1), (0xA5, 1), (0x160, 1), (0xA7, 1), (0x161, 1), (0xA9, 11),
  (0x17D, 1), (0xB5, 3), (0x17E, 1), (0xB9, 3), (0x152, 2), (0x178, 1), (0xBF, 65)]

/-- The upper half of ISO-8859-16. -/
def latin10 : List Nat := ofRuns [(0xFFFD, 32)] ++ ofText (
  "\u00a0ĄąŁ€„Š§š©Ș«Ź\u00adźŻ°±ČłŽ”¶·žčș»ŒœŸżÀÁÂĂÄĆÆÇÈÉÊËÌÍÎÏĐŃÒÓÔŐÖŚŰÙÚÛÜĘȚßàáâăäćæçèéêëìí" ++
  "îïđńòóôőöśűùúûüęțÿ")

/-- The upper half of KOI8-R. -/
def koi8r : List Nat := ofText (
  "─│┌┐└┘├┤┬┴┼▀▄█▌▐░▒▓⌠■∙√≈≤≥\u00a0⌡°²·÷═║╒ё╓╔╕╖╗╘╙╚╛╜╝╞╟╠╡Ё╢╣╤╥╦╧╨╩╪╫╬©юабцдефгхийклмнопяр" ++
  "стужвьызшэщчъЮАБЦДЕФГХИЙКЛМНОПЯРСТУЖВЬЫЗШЭЩЧЪ")

/-- The upper half of KOI8-U. -/
def koi8u : List Nat := ofText (
  "─│┌┐└┘├┤┬┴┼▀▄█▌▐░▒▓⌠■∙√≈≤≥\u00a0⌡°²·÷═║╒ёє╔ії╗╘╙╚╛ґў╞╟╠╡ЁЄ╣ІЇ╦╧╨╩╪ҐЎ©юабцдефгхийклмнопяр" ++
  "стужвьызшэщчъЮАБЦДЕФГХИЙКЛМНОПЯРСТУЖВЬЫЗШЭЩЧЪ")

/-- The upper half of macintosh. -/
def macintosh : List Nat := ofText (
  "ÄÅÇÉÑÖÜáàâäãåçéèêëíìîïñóòôöõúùûü†°¢£§•¶ß®©™´¨≠ÆØ∞±≤≥¥µ∂∑∏π∫ªºΩæø¿¡¬√ƒ≈∆«»…\u00a0ÀÃÕŒœ–—“" ++
  "”‘’÷◊ÿŸ⁄€‹›ﬁﬂ‡·‚„‰ÂÊÁËÈÍÎÏÌÓÔ\uf8ffÒÚÛÙıˆ˜¯˘˙˚¸˝˛ˇ")

/-- The upper half of x-mac-cyrillic. -/
def macCyrillic : List Nat := ofRuns [(0x410, 32)] ++ ofText (
  "†°Ґ£§•¶І®©™Ђђ≠Ѓѓ∞±≤≥іµґЈЄєЇїЉљЊњјЅ¬√ƒ≈∆«»…\u00a0ЋћЌќѕ–—“”‘’÷„ЎўЏџ№Ёёяабвгдежзийклмнопрст" ++
  "уфхцчшщъыьэю€")

/-- The upper half of windows-874. -/
def windows874 : List Nat := ofRuns [
  (0x20AC, 1), (0xFFFD, 4), (0x2026, 1), (0xFFFD, 11), (0x2018, 2), (0x201C, 2), (0x2022, 1),
  (0x2013, 2), (0xFFFD, 8), (0xA0, 1), (0xE01, 58), (0xFFFD, 4), (0xE3F, 29), (0xFFFD, 4)]

/-- The upper half of windows-1250. -/
def windows1250 : List Nat := ofText (
  "€\ufffd‚\ufffd„…†‡\ufffd‰Š‹ŚŤŽŹ\ufffd‘’“”•–—\ufffd™š›śťžź\u00a0ˇ˘Ł¤Ą¦§¨©Ş«¬\u00ad®Ż°±˛ł´" ++
  "µ¶·¸ąş»Ľ˝ľżŔÁÂĂÄĹĆÇČÉĘËĚÍÎĎĐŃŇÓÔŐÖ×ŘŮÚŰÜÝŢßŕáâăäĺćçčéęëěíîďđńňóôőö÷řůúűüýţ˙")

/-- The upper half of windows-1251. -/
def windows1251 : List Nat := ofText (
  "ЂЃ‚ѓ„…†‡€‰Љ‹ЊЌЋЏђ‘’“”•–—\ufffd™љ›њќћџ\u00a0ЎўЈ¤Ґ¦§Ё©Є«¬\u00ad®Ї°±Ііґµ¶·ё№є»јЅѕїАБВГДЕЖЗИ" ++
  "ЙКЛМНОПРСТУФХЦЧШЩЪЫЬЭЮЯабвгдежзийклмнопрстуфхцчшщъыьэюя")

/-- The upper half of windows-1252. -/
def windows1252 : List Nat := ofRuns [
  (0x20AC, 1), (0xFFFD, 1), (0x201A, 1), (0x192, 1), (0x201E, 1), (0x2026, 1), (0x2020, 2),
  (0x2C6, 1), (0x2030, 1), (0x160, 1), (0x2039, 1), (0x152, 1), (0xFFFD, 1), (0x17D, 1),
  (0xFFFD, 2), (0x2018, 2), (0x201C, 2), (0x2022, 1), (0x2013, 2), (0x2DC, 1), (0x2122, 1),
  (0x161, 1), (0x203A, 1), (0x153, 1), (0xFFFD, 1), (0x17E, 1), (0x178, 1), (0xA0, 96)]

/-- The upper half of windows-1253. -/
def windows1253 : List Nat := ofRuns [
  (0x20AC, 1), (0xFFFD, 1), (0x201A, 1), (0x192, 1), (0x201E, 1), (0x2026, 1), (0x2020, 2),
  (0xFFFD, 1), (0x2030, 1), (0xFFFD, 1), (0x2039, 1), (0xFFFD, 5), (0x2018, 2), (0x201C, 2),
  (0x2022, 1), (0x2013, 2), (0xFFFD, 1), (0x2122, 1), (0xFFFD, 1), (0x203A, 1), (0xFFFD, 4),
  (0xA0, 1), (0x385, 2), (0xA3, 7), (0xFFFD, 1), (0xAB, 4), (0x2015, 1), (0xB0, 4), (0x384, 1),
  (0xB5, 3), (0x388, 3), (0xBB, 1), (0x38C, 1), (0xBD, 1), (0x38E, 20), (0xFFFD, 1), (0x3A3, 44),
  (0xFFFD, 1)]

/-- The upper half of windows-1254. -/
def windows1254 : List Nat := ofText (
  "€\ufffd‚ƒ„…†‡ˆ‰Š‹Œ\ufffd\ufffd\ufffd\ufffd‘’“”•–—˜™š›œ\ufffd\ufffdŸ\u00a0¡¢£¤¥¦§¨©ª«¬" ++
  "\u00ad®¯°±²³´µ¶·¸¹º»¼½¾¿ÀÁÂÃÄÅÆÇÈÉÊËÌÍÎÏĞÑÒÓÔÕÖ×ØÙÚÛÜİŞßàáâãäåæçèéêëìíîïğñòóôõö÷øùúûüışÿ")

/-- The upper half of windows-1255. -/
def windows1255 : List Nat := ofRuns [
  (0x20AC, 1), (0xFFFD, 1), (0x201A, 1), (0x192, 1), (0x201E, 1), (0x2026, 1), (0x2020, 2),
  (0x2C6, 1), (0x2030, 1), (0xFFFD, 1), (0x2039, 1), (0xFFFD, 5), (0x2018, 2), (0x201C, 2),
  (0x2022, 1), (0x2013, 2), (0x2DC, 1), (0x2122, 1), (0xFFFD, 1), (0x203A, 1), (0xFFFD, 4),
  (0xA0, 4), (0x20AA, 1), (0xA5, 5), (0xD7, 1), (0xAB, 15), (0xF7, 1), (0xBB, 5), (0x5B0, 20),
  (0x5F0, 5), (0xFFFD, 7), (0x5D0, 27), (0xFFFD, 2), (0x200E, 2), (0xFFFD, 1)]

/-- The upper half of windows-1256. -/
def windows1256 : List Nat := ofRuns [
  (0x20AC, 1), (0x67E, 1), (0x201A, 1), (0x192, 1), (0x201E, 1), (0x2026, 1), (0x2020, 2),
  (0x2C6, 1), (0x2030, 1), (0x679, 1), (0x2039, 1), (0x152, 1), (0x686, 1), (0x698, 1), (0x688, 1),
  (0x6AF, 1), (0x2018, 2), (0x201C, 2), (0x2022, 1), (0x2013, 2), (0x6A9, 1), (0x2122, 1),
  (0x691, 1), (0x203A, 1), (0x153, 1), (0x200C, 2), (0x6BA, 1), (0xA0, 1), (0x60C, 1), (0xA2, 8),
  (0x6BE, 1), (0xAB, 15), (0x61B, 1), (0xBB, 4), (0x61F, 1), (0x6C1, 1), (0x621, 22), (0xD7, 1),
  (0x637, 4), (0x640, 4), (0xE0, 1), (0x644, 1), (0xE2, 1), (0x645, 4), (0xE7, 5), (0x649, 2),
  (0xEE, 2), (0x64B, 4), (0xF4, 1), (0x64F, 2), (0xF7, 1), (0x651, 1), (0xF9, 1), (0x652, 1),
  (0xFB, 2), (0x200E, 2), (0x6D2, 1)]

/-- The upper half of windows-1257. -/
def windows1257 : List Nat := ofText (
  "€\ufffd‚\ufffd„…†‡\ufffd‰\ufffd‹\ufffd¨ˇ¸\ufffd‘’“”•–—\ufffd™\ufffd›\ufffd¯˛\ufffd\u00a0" ++
  "\ufffd¢£¤\ufffd¦§Ø©Ŗ«¬\u00ad®Æ°±²³´µ¶·ø¹ŗ»¼½¾æĄĮĀĆÄÅĘĒČÉŹĖĢĶĪĻŠŃŅÓŌÕÖ×ŲŁŚŪÜŻŽßąįāćäåęēčé" ++
  "źėģķīļšńņóōõö÷ųłśūüżž˙")

/-- The upper half of windows-1258. -/
def windows1258 : List Nat := ofText (
  "€\ufffd‚ƒ„…†‡ˆ‰\ufffd‹Œ\ufffd\ufffd\ufffd\ufffd‘’“”•–—˜™\ufffd›œ\ufffd\ufffdŸ\u00a0¡¢£¤¥" ++
  "¦§¨©ª«¬\u00ad®¯°±²³´µ¶·¸¹º»¼½¾¿ÀÁÂĂÄÅÆÇÈÉÊË\u0300ÍÎÏĐÑ\u0309ÓÔƠÖ×ØÙÚÛÜƯ\u0303ßàáâăäåæçèé" ++
  "êë\u0301íîïđñ\u0323óôơö÷øùúûüư₫ÿ")

/-- The upper half of IBM437. -/
def ibm437 : List Nat := ofText (
  "ÇüéâäàåçêëèïîìÄÅÉæÆôöòûùÿÖÜ¢£¥₧ƒáíóúñÑªº¿⌐¬½¼¡«»░▒▓│┤╡╢╖╕╣║╗╝╜╛┐└┴┬├─┼╞╟╚╔╩╦╠═╬╧╨╤╥╙╘╒╓╫" ++
  "╪┘┌█▄▌▐▀αßΓπΣσµτΦΘΩδ∞φε∩≡±≥≤⌠⌡÷≈°∙·√ⁿ²■\u00a0")

/-- The upper half of IBM850. -/
def ibm850 : List Nat := ofText (
  "ÇüéâäàåçêëèïîìÄÅÉæÆôöòûùÿÖÜø£Ø×ƒáíóúñÑªº¿®¬½¼¡«»░▒▓│┤ÁÂÀ©╣║╗╝¢¥┐└┴┬├─┼ãÃ╚╔╩╦╠═╬¤ðÐÊËÈıÍÎ" ++
  "Ï┘┌█▄¦Ì▀ÓßÔÒõÕµþÞÚÛÙýÝ¯´\u00ad±‗¾¶§÷¸°¨·¹³²■\u00a0")

/-- The upper half of IBM852. -/
def ibm852 : List Nat := ofText (
  "ÇüéâäůćçłëŐőîŹÄĆÉĹĺôöĽľŚśÖÜŤťŁ×čáíóúĄąŽžĘę¬źČş«»░▒▓│┤ÁÂĚŞ╣║╗╝Żż┐└┴┬├─┼Ăă╚╔╩╦╠═╬¤đĐĎËďŇÍÎ" ++
  "ě┘┌█▄ŢŮ▀ÓßÔŃńňŠšŔÚŕŰýÝţ´\u00ad˝˛ˇ˘§÷¸°¨˙űŘř■\u00a0")

/-- The upper half of IBM855. -/
def ibm855 : List Nat := ofText (
  "ђЂѓЃёЁєЄѕЅіІїЇјЈљЉњЊћЋќЌўЎџЏюЮъЪаАбБцЦдДеЕфФгГ«»░▒▓│┤хХиИ╣║╗╝йЙ┐└┴┬├─┼кК╚╔╩╦╠═╬¤лЛмМнНоО" ++
  "п┘┌█▄Пя▀ЯрРсСтТуУжЖвВьЬ№\u00adыЫзЗшШэЭщЩчЧ§■\u00a0")

/-- The upper half of IBM00858. -/
def ibm858 : List Nat := ofText (
  "ÇüéâäàåçêëèïîìÄÅÉæÆôöòûùÿÖÜø£Ø×ƒáíóúñÑªº¿®¬½¼¡«»░▒▓│┤ÁÂÀ©╣║╗╝¢¥┐└┴┬├─┼ãÃ╚╔╩╦╠═╬¤ðÐÊËÈ€ÍÎ" ++
  "Ï┘┌█▄¦Ì▀ÓßÔÒõÕµþÞÚÛÙýÝ¯´\u00ad±‗¾¶§÷¸°¨·¹³²■\u00a0")

/-- The upper half of IBM860. -/
def ibm860 : List Nat := ofText (
  "ÇüéâãàÁçêÊèÍÔìÃÂÉÀÈôõòÚùÌÕÜ¢£Ù₧ÓáíóúñÑªº¿Ò¬½¼¡«»░▒▓│┤╡╢╖╕╣║╗╝╜╛┐└┴┬├─┼╞╟╚╔╩╦╠═╬╧╨╤╥╙╘╒╓╫" ++
  "╪┘┌█▄▌▐▀αßΓπΣσµτΦΘΩδ∞φε∩≡±≥≤⌠⌡÷≈°∙·√ⁿ²■\u00a0")

/-- The upper half of IBM862. -/
def ibm862 : List Nat := ofRuns [(0x5D0, 27)] ++ ofText (
  "¢£¥₧ƒáíóúñÑªº¿⌐¬½¼¡«»░▒▓│┤╡╢╖╕╣║╗╝╜╛┐└┴┬├─┼╞╟╚╔╩╦╠═╬╧╨╤╥╙╘╒╓╫╪┘┌█▄▌▐▀αßΓπΣσµτΦΘΩδ∞φε∩≡±≥" ++
  "≤⌠⌡÷≈°∙·√ⁿ²■\u00a0")

/-- The upper half of IBM863. -/
def ibm863 : List Nat := ofText (
  "ÇüéâÂà¶çêëèïî‗À§ÉÈÊôËÏûù¤ÔÜ¢£ÙÛƒ¦´óú¨¸³¯Î⌐¬½¼¾«»░▒▓│┤╡╢╖╕╣║╗╝╜╛┐└┴┬├─┼╞╟╚╔╩╦╠═╬╧╨╤╥╙╘╒╓╫" ++
  "╪┘┌█▄▌▐▀αßΓπΣσµτΦΘΩδ∞φε∩≡±≥≤⌠⌡÷≈°∙·√ⁿ²■\u00a0")

/-- The upper half of IBM865. -/
def ibm865 : List Nat := ofText (
  "ÇüéâäàåçêëèïîìÄÅÉæÆôöòûùÿÖÜø£Ø₧ƒáíóúñÑªº¿⌐¬½¼¡«¤░▒▓│┤╡╢╖╕╣║╗╝╜╛┐└┴┬├─┼╞╟╚╔╩╦╠═╬╧╨╤╥╙╘╒╓╫" ++
  "╪┘┌█▄▌▐▀αßΓπΣσµτΦΘΩδ∞φε∩≡±≥≤⌠⌡÷≈°∙·√ⁿ²■\u00a0")

/-- The upper half of IBM866. -/
def ibm866 : List Nat := ofRuns [(0x410, 48)] ++ ofText
  "░▒▓│┤╡╢╖╕╣║╗╝╜╛┐└┴┬├─┼╞╟╚╔╩╦╠═╬╧╨╤╥╙╘╒╓╫╪┘┌█▄▌▐▀рстуфхцчшщъыьэюяЁёЄєЇїЎў°∙·√№¤■\u00a0"

/-- The upper half of x-user-defined: private characters. -/
def userDefined : List Nat := ofRuns [(0xF780, 128)]

/-- All characters of IBM037. -/
def ibm037 : List Nat := ofRuns [(0x0, 4)] ++ ofText (
  "\u009c\x09\u0086\x7f\u0097\u008d\u008e\x0b\x0c\x0d\x0e\x0f\x10\x11\x12\x13\u009d\u0085" ++
  "\x08\u0087\x18\x19\u0092\u008f\x1c\x1d\x1e\x1f\u0080\u0081\u0082\u0083\u0084\x0a\x17\x1b" ++
  "\u0088\u0089\u008a\u008b\u008c\x05\x06\x07\u0090\u0091\x16\u0093\u0094\u0095\u0096\x04" ++
  "\u0098\u0099\u009a\u009b\x14\x15\u009e\x1a \u00a0âäàáãåçñ¢.<(+|&éêëèíîïìß!$*);¬-/ÂÄÀÁÃÅÇ" ++
  "Ñ¦,%_>?øÉÊËÈÍÎÏÌ`:#@'=\"Øabcdefghi«»ðýþ±°jklmnopqrªºæ¸Æ¤µ~stuvwxyz¡¿ÐÝÞ®^£¥·©§¶¼½¾[]¯¨´×" ++
  "\x7bABCDEFGHI\u00adôöòóõ\x7dJKLMNOPQR¹ûüùúÿ\\÷STUVWXYZ²ÔÖÒÓÕ0123456789³ÛÜÙÚ\u009f")

/-- All characters of IBM1047. -/
def ibm1047 : List Nat := ofRuns [(0x0, 4)] ++ ofText (
  "\u009c\x09\u0086\x7f\u0097\u008d\u008e\x0b\x0c\x0d\x0e\x0f\x10\x11\x12\x13\u009d\u0085" ++
  "\x08\u0087\x18\x19\u0092\u008f\x1c\x1d\x1e\x1f\u0080\u0081\u0082\u0083\u0084\x0a\x17\x1b" ++
  "\u0088\u0089\u008a\u008b\u008c\x05\x06\x07\u0090\u0091\x16\u0093\u0094\u0095\u0096\x04" ++
  "\u0098\u0099\u009a\u009b\x14\x15\u009e\x1a \u00a0âäàáãåçñ¢.<(+|&éêëèíîïìß!$*);^-/ÂÄÀÁÃÅÇ" ++
  "Ñ¦,%_>?øÉÊËÈÍÎÏÌ`:#@'=\"Øabcdefghi«»ðýþ±°jklmnopqrªºæ¸Æ¤µ~stuvwxyz¡¿Ð[Þ®¬£¥·©§¶¼½¾Ý¨¯]´×" ++
  "\x7bABCDEFGHI\u00adôöòóõ\x7dJKLMNOPQR¹ûüùúÿ\\÷STUVWXYZ²ÔÖÒÓÕ0123456789³ÛÜÙÚ\u009f")

/-- All characters of IBM01140: those of IBM037, with the euro sign for the currency sign. -/
def ibm1140 : List Nat := ibm037.set 0x9F 0x20AC

end ServerPages.Charset
