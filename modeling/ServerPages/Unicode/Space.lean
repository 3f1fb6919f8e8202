import ServerPages.Text.Utf8

/-!
# White space

The characters with the White_Space property, and trimming and splitting of byte strings at them.
-/

namespace ServerPages.Unicode

/-- Whether a character is white space. -/
def isSpace (c : Nat) : Bool :=
  (9 ≤ c && c ≤ 13) || c == 0x20 || c == 0x85 || c == 0xA0 || c == 0x1680 ||
    (0x2000 ≤ c && c ≤ 0x200A) || c == 0x2028 || c == 0x2029 || c == 0x202F || c == 0x205F ||
    c == 0x3000

end ServerPages.Unicode

namespace ServerPages.Bytes

/-- `s` without the white space at its ends. -/
def trimSpace (s : Bytes) : Bytes :=
  let ps := (Utf8.pieces s).dropWhile fun p => Unicode.isSpace p.1
  (ps.reverse.dropWhile fun p => Unicode.isSpace p.1).reverse.flatMap (·.2)

/-- The maximal runs of pieces whose characters do not satisfy `sep`, `word` being the one being
read, last piece first. -/
def wordsFrom (sep : Nat → Bool) (word : List Bytes) : List (Nat × Bytes) → List Bytes
  | [] => if word.isEmpty then [] else [word.reverse.flatten]
  | p :: ps =>
    if sep p.1 then
      if word.isEmpty then wordsFrom sep [] ps
      else word.reverse.flatten :: wordsFrom sep [] ps
    else wordsFrom sep (p.2 :: word) ps

/-- The maximal runs of characters that do not satisfy `sep`. -/
def wordsBy (sep : Nat → Bool) (s : Bytes) : List Bytes := wordsFrom sep [] (Utf8.pieces s)

/-- The words of `s` between white space. -/
def fields (s : Bytes) : List Bytes := wordsBy Unicode.isSpace s

end ServerPages.Bytes
