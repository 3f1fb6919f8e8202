import ServerPages.Proofs.LinkedUnits
import ServerPages.Proofs.Numerals
import ServerPages.Proofs.RestatedDirectives

/-!
# Sizes of output buffers

A page directive gives the size of the output buffer as a number of kilobytes. The number is read as
a word of 64 bits, and only then taken times 1024, in words again. So a number that is no word is
refused, and a number that is one but whose product is none is accepted, with the product as a word
holds it (`bufferSize?_eq_some_iff`): the size is exact only below 2 to the power 53
(`word64_kilobytes_eq_iff`).

## Main results

* `Validation.bufferSize?_eq_some_iff`: which sizes are accepted, and as what.
* `Node.outcome_page`: what is known of the buffer of a page that violates no rule.
* `Node.validate_buffer`: the buffer of a page that passes, and of the code generated for it.
-/

namespace ServerPages

/-- A text is a size of some kilobytes. -/
def IsKilobytes (v : Bytes) (k : Nat) : Prop := ∃ digits : Bytes, v = digits ++ "kb" ∧
  Numeral.Denotes digits k

namespace Validation

/-! ### Sizes -/

theorem kilobytes?_eq_some_iff {v digits : Bytes} : kilobytes? v = some digits ↔
    v = digits ++ "kb" ∧ digits ≠ [] ∧ ∀ b ∈ digits, Bytes.isDigit b = true := by
  unfold kilobytes?
  by_cases hkb : ("kb" : Bytes) <:+ v
  · obtain ⟨s, rfl⟩ := hkb
    have hend : Bytes.endsWith (s ++ ("kb" : Bytes)) "kb" = true :=
      Bytes.endsWith_iff.mpr (List.suffix_append s _)
    rw [Bytes.dropEnd_append, hend, List.append_cancel_right_eq]
    dsimp only
    constructor
    · intro h
      split at h
      · next hfine =>
        obtain rfl := Option.some.inj h
        simpa using hfine
      · cases h
    · rintro ⟨rfl, hne, hdigits⟩
      exact if_pos (by simpa using ⟨hne, hdigits⟩)
  · have hend : v.endsWith "kb" = false :=
      Bool.eq_false_iff.mpr fun h => hkb (Bytes.endsWith_iff.mp h)
    rw [hend]
    exact iff_of_false (fun h => by cases h) fun ⟨hv, _⟩ => hkb (hv ▸ List.suffix_append _ _)

/-- Digits are read as a word if they denote one. -/
theorem signed_of_isDigit {digits : Bytes} (hdigits : ∀ b ∈ digits, Bytes.isDigit b = true)
    {i : Int} : Numeral.signed 64 digits = .ok i ↔
      ∃ k : Nat, Numeral.Denotes digits k ∧ k < 2 ^ 63 ∧ i = k := by
  have hnosign : ∀ b, Bytes.isDigit b = false → digits.head? ≠ some b := fun b hb h =>
    Bool.false_ne_true (hb.symm.trans (hdigits b (List.mem_of_head? h)))
  rw [Numeral.signed_eq_ok_iff (by decide),
    Numeral.denotesInt_iff (hnosign 45 rfl) (hnosign 43 rfl)]
  constructor
  · rintro ⟨⟨k, hk, rfl⟩, -, hlt⟩
    exact ⟨k, hk, by omega, rfl⟩
  · rintro ⟨k, hk, hlt, rfl⟩
    exact ⟨⟨k, hk, rfl⟩, by omega, by omega⟩

/-- **Which sizes are accepted**, and as what. -/
theorem bufferSize?_eq_some_iff {v : Bytes} {n : Int} : bufferSize? v = some n ↔
    (v = "none" ∧ n = 0) ∨
    ∃ k : Nat, IsKilobytes v k ∧ k < 2 ^ 63 ∧ n = word64 (k * 1024) := by
  unfold bufferSize?
  by_cases hnone : v = "none"
  · have hsize : ∀ k, ¬IsKilobytes v k := by
      rintro k ⟨digits, hv, -⟩
      have hlast := congrArg List.getLast? (hnone.symm.trans hv)
      rw [List.getLast?_append, show List.getLast? ("kb" : Bytes) = some 98 from rfl,
        Option.some_or] at hlast
      exact absurd hlast (by decide)
    rw [if_pos (beq_iff_eq.mpr hnone), Option.some.injEq]
    exact ⟨fun h => .inl ⟨hnone, h.symm⟩,
      fun h => h.elim (fun h => h.2.symm) fun ⟨k, hk, _⟩ => absurd hk (hsize k)⟩
  · rw [if_neg (mt beq_iff_eq.mp hnone), Option.bind_eq_some_iff]
    constructor
    · rintro ⟨digits, hdigits, hn⟩
      obtain ⟨rfl, -, hall⟩ := kilobytes?_eq_some_iff.mp hdigits
      cases hsigned : Numeral.signed 64 digits with
      | error e =>
        rw [hsigned] at hn
        cases hn
      | ok i =>
        obtain ⟨k, hk, hlt, rfl⟩ := (signed_of_isDigit hall).mp hsigned
        simp only [hsigned, Except.toOption, Option.map_some, Option.some.injEq] at hn
        exact .inr ⟨k, ⟨digits, rfl, hk⟩, hlt, hn.symm⟩
    · rintro (⟨h, -⟩ | ⟨k, ⟨digits, rfl, hk⟩, hlt, hn⟩)
      · exact absurd h hnone
      · refine ⟨digits, kilobytes?_eq_some_iff.mpr ⟨rfl, hk.nonempty, hk.digits⟩, ?_⟩
        rw [(signed_of_isDigit hk.digits).mpr ⟨k, hk, hlt, rfl⟩, Except.toOption, Option.map_some,
          hn]

/-- The sizes that are exact. -/
theorem word64_kilobytes_eq_iff {k : Nat} : word64 (k * 1024) = k * 1024 ↔ k < 2 ^ 53 := by
  have hmodulus : Nat.pow 2 64 = 18446744073709551616 := rfl
  rw [word64, hmodulus, Int.bmod_eq_iff (by decide), Int.sub_self]
  constructor
  · rintro ⟨-, hlt, -⟩
    omega
  · exact fun hlt => ⟨by omega, by omega, Int.dvd_zero _⟩

/-! ### The end of a validation -/

variable {σ : Type} {env : Env σ}

/-- At the end a page that is not flushed has to have a buffer, and nothing is changed. -/
theorem finish_of_page {s : State σ} (htag : s.page.tag = none) (root : Head) :
    (finish root s).2 = if s.page.autoFlush = false ∧ s.page.buffer = 0 then
        (report .invalidDirectiveValue root.start "autoFlush=\"false\" requires a buffer" s).2
      else s := by
  unfold finish
  rw [show (get : Validate σ (State σ)) = MonadStateOf.get from rfl, run_get, htag]
  have hcondition : (!s.page.autoFlush && s.page.buffer == 0) = true ↔
      s.page.autoFlush = false ∧ s.page.buffer = 0 := by simp
  by_cases h : s.page.autoFlush = false ∧ s.page.buffer = 0
  · simp only [hcondition.mpr h, if_true, if_pos h]
    rfl
  · simp only [mt hcondition.mp h, if_neg h]
    rfl

end Validation

namespace Node

open Validation

variable {σ : Type} {env : Env σ} {memory : σ} {root : Node} {unit : UnitInfo}

/-- What is known of a page that violates no rule: its page directives are in force, and it has a
buffer unless it is flushed. -/
theorem outcome_page (hunit : root.head.unit = some unit) (hpage : unit.isTagFile = false)
    (hnone : (root.outcome env memory).problems.entries = []) :
    (root.outcome env memory).page.tag = none ∧
    (∀ n ∈ root.all, n.kind = .pageDirective → IsInForce n.head (root.outcome env memory)) ∧
    ((root.outcome env memory).page.autoFlush = false →
      (root.outcome env memory).page.buffer ≠ 0) := by
  let start : State σ := startOf { policy := .noCap, capacity := 0 } root memory
  have hstart : HasProblems false [] start :=
    ⟨rfl, (startOf_tag _ memory hunit).trans hpage, List.prefix_rfl⟩
  let t := (visit env .root {} root start).2
  have hvisited : Visited env root start t := ⟨.root, {}, start, .refl _, .refl _⟩
  have hrun : HasProblems false [] t :=
    keeps_visit (isInvariant_hasProblems env false []) root .root {} start hstart
  have htag : t.page.tag = none := Option.not_isSome_iff_eq_none.mp (by simp [hrun.tag])
  have hend : root.outcome env memory = if t.page.autoFlush = false ∧ t.page.buffer = 0 then
      (report .invalidDirectiveValue root.head.start "autoFlush=\"false\" requires a buffer" t).2
      else t := finish_of_page htag root.head
  rw [hend] at hnone ⊢
  split at hnone
  · rw [entries_report hrun.policy] at hnone
    exact absurd hnone (List.append_ne_nil_of_right_ne_nil _ (List.cons_ne_nil _ _))
  · next hbuffer =>
    rw [if_neg hbuffer]
    refine ⟨htag, ?_, fun hflush hzero => hbuffer ⟨hflush, hzero⟩⟩
    rintro ⟨h, cs⟩ hn hk
    exact (hvisited.of_mem_all hn).isInForce (.inl hk) hstart hnone

/-- The code of a page holds what the page says of itself. -/
theorem source_of_generate {options : Generation.Options} {code : GeneratedUnit} {p : PageInfo}
    (hp : root.page? = some p) (htag : p.tag = none)
    (hgenerate : root.generate options = .ok code) :
    Generation.codeLines 2 (Generation.pageInfoLines p) <:+: code.source := by
  obtain ⟨z, t, hz, hrun, hsource, -⟩ := Generation.generate_ok hgenerate
  obtain rfl : p = z.env.page := Option.some.inj (hp.symm.trans hz.page)
  obtain ⟨-, s₁, -, hrun⟩ := bind_eq_ok hrun
  obtain ⟨-, s₂, -, hrun⟩ := bind_eq_ok hrun
  obtain ⟨-, s₃, -, hrun⟩ := bind_eq_ok hrun
  rw [hsource]
  exact Generation.assemble_holds htag hrun

/-- **The buffer of a page.** A page that passes has the size of every `buffer` that its page
directives give: none, or the number of kilobytes, which is a word, times 1024 as a word holds it.
That is the exact product for less than 2 to the power 53 kilobytes only; a larger number may stand
for any size, also for none and for a negative one. A page that is not flushed has a buffer. The
size is the one in the generated code. A value that is no size of a word of kilobytes is reported at
its attribute. -/
theorem validate_buffer (library : Option (Bytes → σ → Except Fault TagLibrary × σ))
    (options : ValidationOptions) (memory : σ) (hroot : root.kind = .root)
    (hunit : root.head.unit = some unit) (hpage : unit.isTagFile = false)
    (hroom : options.overflow = .noCap ∨ 0 < options.maxErrors)
    (hpass : (root.validate library options memory).failure = none) :
    ∃ p, (root.validate library options memory).tree.page? = some p ∧
      (∀ n ∈ root.all, n.kind = .pageDirective → ∀ a ∈ n.head.attributes, a.name = "buffer" →
        (a.value = "none" ∧ p.buffer = 0) ∨
        ∃ k : Nat, IsKilobytes a.value k ∧ k < 2 ^ 63 ∧ p.buffer = word64 (k * 1024) ∧
          (p.buffer = k * 1024 ↔ k < 2 ^ 53)) ∧
      (p.autoFlush = false → p.buffer ≠ 0) ∧
      (∀ generation code, (root.validate library options memory).tree.generate generation =
        .ok code → Generation.codeLine 2 ("Buffer: " ++ Bytes.ofInt p.buffer ++ ",") <:+:
          code.source) ∧
      ∀ a : Attribute, a.name = "buffer" → a.value ≠ "none" →
        (∀ k, IsKilobytes a.value k → 2 ^ 63 ≤ k) → ∃ message,
          (applyAttribute a : Validate σ Unit) =
            report .invalidDirectiveValue a.position message := by
  obtain ⟨c, hc⟩ := exists_empty?_of_failure_eq_none hpass
  have hnone := (failure_eq_none_iff library options memory root hc hroom).mp hpass
  rw [violations_eq] at hnone
  obtain ⟨htag, hforce, hflush⟩ := outcome_page hunit hpage hnone
  have hp : (root.validate library options memory).tree.page? =
      some (root.outcome ⟨library, options.binder⟩ memory).page := by
    rw [page?_validate library options memory root hc hroot, hunit]
    rfl
  refine ⟨_, hp, fun n hn hk a ha hname => ?_, hflush, fun generation code hgenerate => ?_,
    fun a hname hnot hlarge => ?_⟩
  · have hstands := (hforce n hn hk).stands a ha
    obtain ⟨size, hsize⟩ := Option.isSome_iff_exists.mp (hstands.buffer hname)
    have hbuffer : (root.outcome ⟨library, options.binder⟩ memory).page.buffer = size := by
      have hnamed : Setting.named? a.name = some .buffer := by
        rw [hname]
        exact Setting.named?_name .buffer
      have hset := congrArg PageInfo.buffer (hstands.setting .buffer hnamed)
      rw [Setting.put, hsize] at hset
      exact hset.symm
    rw [hbuffer]
    refine (bufferSize?_eq_some_iff.mp hsize).imp_right ?_
    rintro ⟨k, hkilobytes, hlt, hword⟩
    refine ⟨k, hkilobytes, hlt, hword, ?_⟩
    rw [hword]
    exact word64_kilobytes_eq_iff
  · refine List.IsInfix.trans ?_ (source_of_generate hp htag hgenerate)
    exact Generation.codeLine_infix_codeLines (by simp [Generation.pageInfoLines])
  · have hsize : bufferSize? a.value = none := by
      refine Option.eq_none_iff_forall_ne_some.mpr fun size hsize => ?_
      rcases bufferSize?_eq_some_iff.mp hsize with ⟨hvalue, -⟩ | ⟨k, hk, hlt, -⟩
      · exact hnot hvalue
      · exact absurd hlt (Nat.not_lt.mpr (hlarge k hk))
    rw [applyAttribute_of_buffer hname]
    exact setBuffer_eq_report hsize

/-- A page with a buffer of a size. -/
def sizedPage (size : Bytes) : Node :=
  ⟨{ kind := .root, unit := some ⟨"/a.jsp", false, false, "UTF-8", none⟩ },
    [.leaf { kind := .pageDirective
             attributes := [{ name := "buffer", localName := "buffer", value := size }] }]⟩

/-- For 2 to the power 53 kilobytes the buffer has a negative size. -/
theorem validate_buffer_wrapped :
    ((sizedPage "9007199254740992kb").validate (σ := Unit) none {} ()).failure = none ∧
    ∃ p, ((sizedPage "9007199254740992kb").validate (σ := Unit) none {} ()).tree.page? = some p ∧
      p.buffer = -2 ^ 63 := by
  have hpass :
      ((sizedPage "9007199254740992kb").validate (σ := Unit) none {} ()).failure = none :=
    Option.isNone_iff_eq_none.mp (by decide +kernel)
  obtain ⟨p, hp, hsizes, -⟩ := validate_buffer none {} () rfl rfl rfl (.inl rfl) hpass
  have hsize := hsizes _ (List.mem_cons_of_mem _ List.mem_cons_self) rfl _ List.mem_cons_self rfl
  have hvalue : bufferSize? "9007199254740992kb" = some p.buffer :=
    bufferSize?_eq_some_iff.mpr <| hsize.imp_right fun ⟨k, hk, hlt, hword, _⟩ => ⟨k, hk, hlt, hword⟩
  exact ⟨hpass, p, hp, Option.some.inj (hvalue.symm.trans (by decide +kernel))⟩

end Node

end ServerPages
