import ServerPages.Markup.Token
import ServerPages.Proofs.Bytes

/-!
# Tokens are pieces of the document

What is left after a token is the end of what was there before. The piece that a token takes is not
empty, and ends in the closing mark of a tag or where the next tag opens. A start tag starts with
its opening mark.

## Main results

* `Markup.token_lt`: a token takes at least a byte.
* `Markup.token_ends`: a token takes a piece that ends at the edge of a tag.
-/

namespace ServerPages

namespace Markup

theorem bind_eq_ok {ε α β : Type} {x : Except ε α} {f : α → Except ε β} {b : β}
    (h : (x >>= f) = .ok b) : ∃ a, x = .ok a ∧ f a = .ok b := by
  cases x with
  | error e => cases h
  | ok a => exact ⟨a, rfl, h⟩

theorem suffix_cons_of {b : UInt8} {rest s : Bytes} (h : rest <:+ s) : rest <:+ b :: s :=
  h.trans (List.suffix_cons b s)

theorem suffix_of_cons {b : UInt8} {rest s : Bytes} (h : b :: rest <:+ s) : rest <:+ s :=
  (List.suffix_cons b rest).trans h

theorem suffix_afterBlanks (s : Bytes) : afterBlanks s <:+ s := List.dropWhile_suffix _

/-! ### Character data -/

/-- Where character data ends: at a closing quote, at the end of a section, or before a tag. -/
structure DataEnds (quote : Option UInt8) (cdata : Bool) (s rest : Bytes) : Prop where
  suffix : rest <:+ s
  ofSection : quote = none → cdata = true → 62 :: rest <:+ s
  beforeTag : quote = none → cdata = false → ∀ b ∈ rest.head?, b = 60

theorem DataEnds.cons {quote : Option UInt8} {cdata : Bool} {s rest : Bytes}
    (h : DataEnds quote cdata s rest) (b : UInt8) : DataEnds quote cdata (b :: s) rest where
  suffix := suffix_cons_of h.suffix
  ofSection hq hc := suffix_cons_of (h.ofSection hq hc)
  beforeTag := h.beforeTag

theorem dataFrom_ends {quote : Option UInt8} {cdata : Bool} {skip : Nat} {b0 b1 : UInt8}
    {out s text rest : Bytes} (h : dataFrom quote cdata skip b0 b1 out s = .ok (text, rest)) :
    DataEnds quote cdata s rest := by
  induction s generalizing skip b0 b1 out with
  | nil =>
    unfold dataFrom at h
    split at h
    · cases h
    next hcdata =>
    obtain ⟨-, rfl⟩ := Prod.mk.inj (Except.ok.inj h)
    exact ⟨List.suffix_refl _, fun _ hc => absurd hc hcdata, fun _ _ _ hb => by cases hb⟩
  | cons b s ih =>
    cases skip with
    | succ skip =>
      rw [dataFrom] at h
      exact (ih h).cons b
    | zero =>
      rw [dataFrom] at h
      split at h
      · next hmark =>
        split at h
        · next hcdata =>
          obtain ⟨-, rfl⟩ := Prod.mk.inj (Except.ok.inj h)
          obtain rfl : b = 62 := by simpa using (Bool.and_eq_true_iff.mp hmark).2
          exact ⟨List.suffix_cons _ _, fun _ _ => List.suffix_refl _,
            fun _ hc => by rw [hcdata] at hc; cases hc⟩
        · cases h
      split at h
      · next htag =>
        obtain ⟨hb, hcdata⟩ := Bool.and_eq_true_iff.mp htag
        split at h
        · cases h
        · obtain ⟨-, rfl⟩ := Prod.mk.inj (Except.ok.inj h)
          refine ⟨List.suffix_refl _, fun _ hc => ?_, fun _ _ d hd => ?_⟩
          · rw [hc] at hcdata
            cases hcdata
          · exact Option.some.inj hd ▸ eq_of_beq hb
      split at h
      · next hquote =>
        obtain ⟨-, rfl⟩ := Prod.mk.inj (Except.ok.inj h)
        have hsome : quote ≠ none := fun hq => by rw [hq] at hquote; cases hquote
        exact ⟨List.suffix_cons _ _, fun hq => absurd hq hsome, fun hq => absurd hq hsome⟩
      split at h
      · split at h
        · cases h
        · exact (ih h).cons b
      · exact (ih h).cons b

theorem legal_eq_ok {data rest : Bytes} {r : Bytes × Bytes} (h : legal data rest = .ok r) :
    r = (data, rest) := by
  unfold legal at h
  split at h
  · exact (Except.ok.inj h).symm
  · split at h
    · cases h
    · cases h

theorem data_ends {quote : Option UInt8} {cdata : Bool} {s text rest : Bytes}
    (h : data quote cdata s = .ok (text, rest)) : DataEnds quote cdata s rest := by
  obtain ⟨⟨t, r⟩, hd, hl⟩ := bind_eq_ok h
  obtain ⟨-, rfl⟩ := Prod.mk.inj (legal_eq_ok hl)
  exact dataFrom_ends hd

/-- Text that does not start with a tag takes at least a byte. -/
theorem data_lt {b : UInt8} (hb : b ≠ 60) {s text rest : Bytes}
    (h : data none false (b :: s) = .ok (text, rest)) : rest.length < (b :: s).length := by
  obtain ⟨⟨t, r⟩, hd, hl⟩ := bind_eq_ok h
  obtain ⟨-, rfl⟩ := Prod.mk.inj (legal_eq_ok hl)
  rw [dataFrom, if_neg (by simp), if_neg (by simp [hb]), if_neg (by simp)] at hd
  refine Nat.lt_succ_of_le ?_
  split at hd
  · split at hd
    · cases hd
    · exact (dataFrom_ends hd).suffix.length_le
  · exact (dataFrom_ends hd).suffix.length_le

/-! ### Tags -/

theorem scanName_suffix {missing s name rest : Bytes} (h : scanName missing s = .ok (name, rest)) :
    rest <:+ s := by
  unfold scanName at h
  split at h
  · cases h
  split at h
  · cases h
  dsimp only at h
  split at h
  · cases h
  · split at h
    · obtain ⟨-, rfl⟩ := Prod.mk.inj (Except.ok.inj h)
      exact List.dropWhile_suffix _
    · cases h

theorem scanQualified_suffix {missing s rest : Bytes} {name : Name}
    (h : scanQualified missing s = .ok (name, rest)) : rest <:+ s := by
  obtain ⟨⟨n, r⟩, hn, h⟩ := bind_eq_ok h
  dsimp only at h
  split at h
  · obtain ⟨-, rfl⟩ := Prod.mk.inj (Except.ok.inj h)
    exact scanName_suffix hn
  · cases h

theorem attributeValue_suffix {s value rest : Bytes} (h : attributeValue s = .ok (value, rest)) :
    rest <:+ s := by
  unfold attributeValue at h
  split at h
  · cases h
  split at h
  · exact suffix_cons_of (data_ends h).suffix
  · cases h

theorem attributesWithin_suffix {fuel : Nat} {read : List Attribute} {s rest : Bytes}
    {r : List Attribute × Bool} (h : attributesWithin fuel read s = .ok (r, rest)) :
    62 :: rest <:+ s := by
  induction fuel generalizing read s with
  | zero => cases h
  | succ fuel ih =>
    refine List.IsSuffix.trans ?_ (suffix_afterBlanks s)
    unfold attributesWithin at h
    split at h
    · cases h
    · cases h
    · next hb =>
      obtain ⟨-, rfl⟩ := Prod.mk.inj (Except.ok.inj h)
      exact hb ▸ List.suffix_cons _ _
    · cases h
    · next hb =>
      obtain ⟨-, rfl⟩ := Prod.mk.inj (Except.ok.inj h)
      exact hb ▸ List.suffix_refl _
    · obtain ⟨⟨name, t⟩, hn, h⟩ := bind_eq_ok h
      refine List.IsSuffix.trans ?_ (scanQualified_suffix hn)
      refine List.IsSuffix.trans ?_ (suffix_afterBlanks t)
      dsimp only at h
      split at h
      · cases h
      next b u hu =>
      split at h
      · cases h
      obtain ⟨⟨value, v⟩, hv, h⟩ := bind_eq_ok h
      rw [hu]
      refine suffix_cons_of (List.IsSuffix.trans ?_ (suffix_afterBlanks u))
      exact List.IsSuffix.trans (ih h) (attributeValue_suffix hv)

theorem startTag_suffix {s rest : Bytes} {t : Token} (h : startTag s = .ok (t, rest)) :
    62 :: rest <:+ s := by
  obtain ⟨⟨name, u⟩, hn, h⟩ := bind_eq_ok h
  obtain ⟨⟨r, v⟩, hr, h⟩ := bind_eq_ok h
  obtain ⟨-, rfl⟩ := Prod.mk.inj (Except.ok.inj h)
  exact (attributesWithin_suffix hr).trans (scanQualified_suffix hn)

theorem endTag_suffix {s rest : Bytes} {t : Token} (h : endTag s = .ok (t, rest)) :
    62 :: rest <:+ s := by
  obtain ⟨⟨name, u⟩, hn, h⟩ := bind_eq_ok h
  dsimp only at h
  split at h
  · cases h
  next b v hv =>
  split at h
  · next hb =>
    obtain ⟨-, rfl⟩ := Prod.mk.inj (Except.ok.inj h)
    refine List.IsSuffix.trans ?_ (scanQualified_suffix hn)
    exact eq_of_beq hb ▸ hv ▸ suffix_afterBlanks u
  · cases h

/-! ### Instructions, comments and declarations -/

theorem instruction_suffix {anyEncoding : Bool} {s rest : Bytes} {t : Token}
    (h : instruction anyEncoding s = .ok (t, rest)) : 62 :: rest <:+ s := by
  obtain ⟨⟨target, u⟩, hn, h⟩ := bind_eq_ok h
  dsimp only at h
  split at h
  · cases h
  next i hi =>
  have hrest : 62 :: (afterBlanks u).drop (i + 2) <:+ s := by
    refine List.IsSuffix.trans ?_ ((suffix_afterBlanks u).trans (scanName_suffix hn))
    obtain ⟨r, hr⟩ := Bytes.isPrefix_of_indexOf? hi
    have hr : (afterBlanks u).drop i = 63 :: 62 :: r := hr.symm
    rw [← List.drop_drop, hr]
    exact suffix_of_cons (hr ▸ List.drop_suffix i (afterBlanks u))
  split at h
  · obtain ⟨-, rfl⟩ := Prod.mk.inj (Except.ok.inj h)
    exact hrest
  split at h
  · cases h
  split at h
  · cases h
  · obtain ⟨-, rfl⟩ := Prod.mk.inj (Except.ok.inj h)
    exact hrest

theorem comment_suffix {s rest : Bytes} {t : Token} (h : comment s = .ok (t, rest)) :
    62 :: rest <:+ s := by
  unfold comment at h
  split at h
  · cases h
  split at h
  · cases h
  next b u hu =>
  split at h
  · next hb =>
    obtain ⟨-, rfl⟩ := Prod.mk.inj (Except.ok.inj h)
    exact eq_of_beq hb ▸ hu ▸ List.drop_suffix _ _
  · cases h

theorem declarationFrom_suffix {skip depth : Nat} {quote : Option UInt8} {s rest : Bytes}
    {t : Token} (h : declarationFrom skip quote depth s = .ok (t, rest)) :
    62 :: rest <:+ s := by
  induction s generalizing skip quote depth with
  | nil => cases h
  | cons b s ih =>
    have hrec : ∀ {skip depth : Nat} {quote : Option UInt8},
        declarationFrom skip quote depth s = .ok (t, rest) → 62 :: rest <:+ b :: s :=
      fun h => suffix_cons_of (ih h)
    cases skip with
    | succ skip => exact hrec h
    | zero =>
      unfold declarationFrom at h
      split at h
      · exact hrec h
      split at h
      · next hb =>
        split at h
        · obtain ⟨-, rfl⟩ := Prod.mk.inj (Except.ok.inj h)
          exact eq_of_beq hb ▸ List.suffix_refl _
        · exact hrec h
      split at h
      · exact hrec h
      split at h
      · split at h
        · split at h
          · cases h
          · exact hrec h
        · exact hrec h
      · exact hrec h

theorem afterSectionOpening_suffix {opening s rest : Bytes}
    (h : afterSectionOpening opening s = .ok rest) : rest <:+ s := by
  induction opening generalizing s with
  | nil =>
    rw [afterSectionOpening] at h
    exact Except.ok.inj h ▸ List.suffix_refl _
  | cons c cs ih =>
    cases s with
    | nil => cases h
    | cons b s =>
      rw [afterSectionOpening] at h
      split at h
      · exact suffix_cons_of (ih h)
      · cases h

theorem special_suffix {s rest : Bytes} {t : Token} (h : special s = .ok (t, rest)) :
    62 :: rest <:+ s := by
  unfold special at h
  split at h
  · cases h
  · cases h
  · exact suffix_cons_of (suffix_cons_of (comment_suffix h))
  · cases h
  · obtain ⟨u, hu, h⟩ := bind_eq_ok h
    obtain ⟨⟨text, v⟩, hv, h⟩ := bind_eq_ok h
    obtain ⟨-, rfl⟩ := Prod.mk.inj (Except.ok.inj h)
    refine suffix_cons_of (List.IsSuffix.trans ?_ (afterSectionOpening_suffix hu))
    exact (data_ends hv).ofSection rfl rfl
  · exact suffix_cons_of (declarationFrom_suffix h)

/-! ### Tokens -/

/-- What a token leaves of a text: the end of it, after the closing mark of a tag or before the
opening mark of one. A start tag starts with its opening mark. -/
structure TokenEnds (s : Bytes) (t : Token) (rest : Bytes) : Prop where
  suffix : rest <:+ s
  edge : 62 :: rest <:+ s ∨ ∀ b ∈ rest.head?, b = 60
  opens : ∀ name attributes closed, t = .startTag name attributes closed → ∃ r, s = 60 :: r

theorem TokenEnds.of_closed {s rest : Bytes} {t : Token} (h : 62 :: rest <:+ s)
    (ht : ∀ name attributes closed, t = .startTag name attributes closed → ∃ r, s = 60 :: r) :
    TokenEnds s t rest :=
  ⟨suffix_of_cons h, .inl h, ht⟩

/-- **A token takes a piece of the text** that ends at the edge of a tag. -/
theorem token_ends {anyEncoding : Bool} {s rest : Bytes} {t : Token}
    (h : token anyEncoding s = .ok (t, rest)) : TokenEnds s t rest := by
  unfold token at h
  split at h
  · cases h
  · exact .of_closed (suffix_cons_of (suffix_cons_of (endTag_suffix h))) fun _ _ _ _ => ⟨_, rfl⟩
  · exact .of_closed (suffix_cons_of (suffix_cons_of (instruction_suffix h)))
      fun _ _ _ _ => ⟨_, rfl⟩
  · exact .of_closed (suffix_cons_of (suffix_cons_of (special_suffix h))) fun _ _ _ _ => ⟨_, rfl⟩
  · exact .of_closed (suffix_cons_of (startTag_suffix h)) fun _ _ _ _ => ⟨_, rfl⟩
  · obtain ⟨⟨text, v⟩, hv, h⟩ := bind_eq_ok h
    obtain ⟨rfl, rfl⟩ := Prod.mk.inj (Except.ok.inj h)
    have hends := data_ends hv
    exact ⟨hends.suffix, .inr (hends.beforeTag rfl rfl), fun _ _ _ ht => by cases ht⟩

/-- A token takes at least a byte. -/
theorem token_lt {anyEncoding : Bool} {s rest : Bytes} {t : Token} (hs : s ≠ [])
    (h : token anyEncoding s = .ok (t, rest)) : rest.length < s.length := by
  unfold token at h
  split at h
  · cases h
  · exact (suffix_cons_of (suffix_cons_of (endTag_suffix h))).length_le
  · exact (suffix_cons_of (suffix_cons_of (instruction_suffix h))).length_le
  · exact (suffix_cons_of (suffix_cons_of (special_suffix h))).length_le
  · exact (suffix_cons_of (startTag_suffix h)).length_le
  · next hne =>
    obtain ⟨b, u, rfl⟩ := List.exists_cons_of_ne_nil hs
    obtain ⟨⟨text, v⟩, hv, h⟩ := bind_eq_ok h
    obtain ⟨-, rfl⟩ := Prod.mk.inj (Except.ok.inj h)
    refine data_lt ?_ hv
    rintro rfl
    exact hne u rfl

end Markup

end ServerPages
