import HeaderSync.Proofs.Reader.WrittenLines
import Mathlib.Data.List.Infix

/-!
# Balanced braces

A text is balanced if it has as many closing braces as opening ones and none is closed before it is
opened. Only the braces of a text count, so what a text operation does to the balance is read off from
what it does to them.

* `Text.NoBraces`, `Text.BraceBalanced`;
* `Text.braces`, `Text.braceBalanced_braces` : the braces of a text decide whether it is balanced;
* `Text.BraceBalanced.append`, `Text.BraceBalanced.enclose` : balanced texts one after the other, and in
  a pair of braces;
* `Text.braces_joinWith`, `Text.braces_trim`, `Text.flatMap_braces_lines` : the braces of texts that are
  joined, trimmed, or cut into lines.
-/

namespace HeaderSync.Text

def isBrace (c : Char) : Bool :=
  c == '\x7b' || c == '\x7d'

/-- The text has no brace. -/
def NoBraces (t : Text) : Prop :=
  ∀ c ∈ t, isBrace c = false

instance (t : Text) : Decidable (NoBraces t) :=
  inferInstanceAs (Decidable (∀ c ∈ t, _))

/-- As many braces are closed as are opened, and none before it is opened. -/
def BraceBalanced (t : Text) : Prop :=
  t.count '\x7b' = t.count '\x7d' ∧
    ∀ front, front <+: t → front.count '\x7d' ≤ front.count '\x7b'

/-- The braces of the text. -/
def braces (t : Text) : Text :=
  t.filter isBrace

variable {s t : Text}

@[simp] theorem braces_append (s t : Text) : braces (s ++ t) = braces s ++ braces t :=
  List.filter_append ..

theorem braces_eq_nil_iff : braces t = [] ↔ NoBraces t := by
  simp only [braces, List.filter_eq_nil_iff, Bool.not_eq_true, NoBraces]

theorem NoBraces.braces_eq (h : NoBraces t) : braces t = [] :=
  braces_eq_nil_iff.2 h

/-! ## Texts without braces -/

namespace NoBraces

theorem append (hs : NoBraces s) (ht : NoBraces t) : NoBraces (s ++ t) :=
  List.forall_mem_append.mpr ⟨hs, ht⟩

theorem onlyIf (b : Bool) (h : NoBraces t) : NoBraces (onlyIf b t) := by
  cases b
  · exact List.forall_mem_nil _
  · exact h

theorem of_allBlank (h : allBlank t = true) : NoBraces t := by
  intro c hc
  have hblank := List.all_eq_true.mp h c hc
  by_contra hbrace
  rw [Bool.not_eq_false, isBrace, Bool.or_eq_true, beq_iff_eq, beq_iff_eq] at hbrace
  rcases hbrace with rfl | rfl <;> exact absurd hblank (by decide)

theorem joinWith {glue : Text} {parts : List Text} (hglue : NoBraces glue)
    (h : ∀ part ∈ parts, NoBraces part) : NoBraces (joinWith glue parts) := by
  intro c hc
  rcases mem_of_mem_joinWith hc with hc | ⟨part, hpart, hc⟩
  · exact hglue c hc
  · exact h part hpart c hc

end NoBraces

/-! ## Balance -/

theorem count_braces {c : Char} (hc : isBrace c = true) (t : Text) :
    (braces t).count c = t.count c :=
  List.count_filter hc

/-- Only the braces of a text count. -/
theorem braceBalanced_braces : BraceBalanced (braces t) ↔ BraceBalanced t := by
  have hopen := count_braces (c := '\x7b') (by decide)
  have hclose := count_braces (c := '\x7d') (by decide)
  rw [BraceBalanced, BraceBalanced, hopen, hclose]
  refine and_congr_right fun _ => ⟨fun h front hfront => ?_, ?_⟩
  · have hkept := h (braces front) (hfront.filter _)
    rwa [hopen, hclose] at hkept
  · rintro h front ⟨back, hback⟩
    obtain ⟨front', back', rfl, rfl, -⟩ := List.filter_eq_append_iff.mp hback.symm
    have hkept := h front' (List.prefix_append _ _)
    rwa [← hopen, ← hclose] at hkept

theorem BraceBalanced.congr (h : braces s = braces t) (hs : BraceBalanced s) : BraceBalanced t :=
  braceBalanced_braces.1 (h ▸ braceBalanced_braces.2 hs)

theorem braceBalanced_nil : BraceBalanced [] :=
  ⟨rfl, fun front hfront => by rw [List.prefix_nil.mp hfront]; exact le_rfl⟩

theorem BraceBalanced.append (hs : BraceBalanced s) (ht : BraceBalanced t) :
    BraceBalanced (s ++ t) := by
  refine ⟨by rw [List.count_append, List.count_append, hs.1, ht.1], fun front hfront => ?_⟩
  rcases List.prefix_or_prefix_of_prefix hfront (List.prefix_append s t) with h | ⟨rest, rfl⟩
  · exact hs.2 front h
  · have hrest := ht.2 rest ((List.prefix_append_right_inj s).mp hfront)
    rw [List.count_append, List.count_append, hs.1]
    omega

/-- A balanced text in a pair of braces. -/
theorem BraceBalanced.enclose (h : BraceBalanced t) :
    BraceBalanced ('\x7b' :: (t ++ ['\x7d'])) := by
  refine ⟨?_, fun front hfront => ?_⟩
  · simp [List.count_append, h.1]
  · rcases List.prefix_cons_iff.mp hfront with rfl | ⟨inner, rfl, hinner⟩
    · exact le_rfl
    · rcases List.prefix_concat_iff.mp hinner with rfl | hinner
      · simp [List.count_append, h.1]
      · have hle := h.2 inner hinner
        simp only [List.count_cons]
        simp
        omega

/-! ## Lines of a text -/

theorem braces_trim (t : Text) : braces (trim t) = braces t := by
  obtain ⟨before, after, heq, hbefore, hafter⟩ := exists_trim t
  conv_rhs => rw [heq]
  rw [braces_append, braces_append, (NoBraces.of_allBlank hbefore).braces_eq,
    (NoBraces.of_allBlank hafter).braces_eq, List.nil_append, List.append_nil]

theorem braces_joinWith {glue : Text} (hglue : NoBraces glue) (parts : List Text) :
    braces (joinWith glue parts) = parts.flatMap braces := by
  induction parts with
  | nil => rfl
  | cons part parts ih =>
    cases parts with
    | nil => rw [Signature.joinWith_singleton, List.flatMap_singleton]
    | cons next parts =>
      rw [Signature.joinWith_cons_cons, braces_append, braces_append, hglue.braces_eq, ih]
      rfl

/-- The parts of a text with the separator between them are the text. -/
theorem joinWith_splitOnFrom {separator : Text} (hne : separator ≠ []) (skip : Nat) (t : Text) :
    joinWith separator (splitOnFrom separator skip t) = t.drop skip := by
  fun_induction splitOnFrom separator skip t with
  | case1 skip => rw [Signature.joinWith_singleton, List.drop_nil]
  | case2 skip c t ih => rw [ih, List.drop_succ_cons]
  | case3 c t hlead ih =>
    obtain ⟨rest, hrest⟩ := List.isPrefixOf_iff_prefix.mp hlead
    obtain ⟨a, lead, rfl⟩ := List.exists_cons_of_ne_nil hne
    obtain ⟨next, parts, hparts⟩ := List.exists_cons_of_ne_nil
      (splitOnFrom_ne_nil (a :: lead) ((a :: lead).length - 1) t)
    rw [hparts] at ih ⊢
    obtain ⟨rfl, rfl⟩ := List.cons.inj hrest
    rw [Signature.joinWith_cons_cons, ih]
    simp
  | case4 c t hlead ih =>
    obtain ⟨first, parts, hparts⟩ := List.exists_cons_of_ne_nil (splitOnFrom_ne_nil separator 0 t)
    rw [hparts, List.drop_zero] at ih
    rw [hparts, consFirst, List.drop_zero, ← ih]
    cases parts with
    | nil => rw [Signature.joinWith_singleton, Signature.joinWith_singleton]
    | cons next parts =>
      rw [Signature.joinWith_cons_cons, Signature.joinWith_cons_cons, List.cons_append]

/-- The lines of a text have its braces. -/
theorem flatMap_braces_lines (t : Text) : (lines t).flatMap braces = braces t := by
  have hline : ∀ line, braces (dropCarriageReturn line) = braces line := by
    intro line
    rw [dropCarriageReturn]
    cases htail : dropTail? ['\r'] line with
    | none => rfl
    | some rest =>
      rw [dropTail?_eq_some.1 htail, Option.getD_some, braces_append]
      exact (List.append_nil _).symm
  have hlines : ∀ parts : List Text, (linesOf parts).flatMap braces = parts.flatMap braces := by
    intro parts
    fun_induction linesOf parts with
    | case1 => rfl
    | case2 rest hempty => rw [List.isEmpty_iff.mp hempty]; rfl
    | case3 rest => rfl
    | case4 line rest hne ih => rw [List.flatMap_cons, List.flatMap_cons, hline, ih]
  have hnewline : NoBraces ['\n'] := by decide
  rw [lines, hlines, ← braces_joinWith hnewline, splitOn, joinWith_splitOnFrom (List.cons_ne_nil _ _),
    List.drop_zero]

end HeaderSync.Text
