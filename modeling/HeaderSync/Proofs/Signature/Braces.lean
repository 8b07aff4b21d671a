import HeaderSync.Proofs.Signature.Operators
import HeaderSync.Proofs.Text.Braces
import HeaderSync.Proofs.Tree.Shown

/-!
# Signatures without braces

What the parts of a signature are brought into has no brace if they have none.

* `Text.NoBraces.trim`, `Text.NoBraces.of_mem_splitOn`, `Text.NoBraces.of_mem_words` : parts of a text;
* `Text.NoBraces.normalizeType`, `Text.NoBraces.normalizeReturnType` : types;
* `Text.NoBraces.splitQualified` : the name in its scopes;
* `Text.NoBraces.stripDefaults` : arguments.
-/

namespace HeaderSync.Text.NoBraces

open Signature

variable {t : Text}

/-! ## Parts of a text -/

theorem trim (h : NoBraces t) : NoBraces (trim t) :=
  braces_eq_nil_iff.1 (by rw [braces_trim, h.braces_eq])

theorem of_mem_joinWith {glue part : Text} {parts : List Text} (h : NoBraces (Text.joinWith glue parts))
    (hpart : part ∈ parts) : NoBraces part :=
  fun c hc => h c (Lines.mem_joinWith hpart hc)

theorem of_mem_splitOn {separator part : Text} (hne : separator ≠ []) (h : NoBraces t)
    (hpart : part ∈ splitOn separator t) : NoBraces part := by
  have hjoin := joinWith_splitOnFrom hne 0 t
  rw [List.drop_zero] at hjoin
  exact of_mem_joinWith (hjoin.symm ▸ h) hpart

theorem of_mem_words {word : Text} (h : NoBraces t) (hword : word ∈ words t) : NoBraces word :=
  fun c hc => h c ((mem_of_mem_runsFrom hword c hc).resolve_left List.not_mem_nil)

theorem dropTail? {tail rest : Text} (h : NoBraces t) (hrest : dropTail? tail t = some rest) :
    NoBraces rest :=
  fun c hc => h c (mem_of_dropTail? hrest hc)

theorem dropLead? {lead rest : Text} (h : NoBraces t) (hrest : dropLead? lead t = some rest) :
    NoBraces rest :=
  fun c hc => h c (dropLead?_eq_some.1 hrest ▸ List.mem_append_right lead hc)

/-! ## Types -/

theorem of_mem_tokens {token : Text} (h : NoBraces t) (htoken : token ∈ tokens t) :
    NoBraces token := by
  intro c hc
  rcases mem_of_mem_tokens htoken hc with hc | rfl
  · exact h c hc
  · decide

theorem normalizeType (h : NoBraces t) : NoBraces (normalizeType t) :=
  joinWith (by decide) fun _ => h.of_mem_tokens

theorem normalizeReturnType (h : NoBraces t) : NoBraces (normalizeReturnType t) :=
  joinWith (by decide) fun _ htoken => h.of_mem_tokens (List.mem_filter.mp htoken).1

/-! ## Names -/

theorem operatorName (h : NoBraces t) : NoBraces (operatorName t) := by
  rw [Signature.operatorName]
  split
  · exact append (by decide) h.trim.normalizeType
  · refine append (by decide) fun c hc => ?_
    obtain ⟨word, hword, hc⟩ := List.mem_flatten.mp hc
    exact h.trim.of_mem_words hword c hc

theorem splitQualified (h : NoBraces t) : NoBraces (splitQualified t).2 := by
  rw [Signature.splitQualified]
  split
  · rename_i before rest hcut
    have hrest := splitOperatorFrom?_eq_some hcut
    rw [List.reverse_nil, List.nil_append] at hrest
    refine operatorName fun c hc => h c ?_
    rw [hrest]
    exact List.mem_append_right _ (List.mem_append_right _ hc)
  · have hne := splitScopesFrom_ne_nil 0 t
    refine trim fun c hc => h c (mem_of_mem_splitScopesFrom (List.getLast_mem hne) ?_)
    rwa [splitScopes, List.getLastD_eq_getLast?, List.getLast?_eq_some_getLast hne] at hc

/-! ## Arguments -/

theorem stripDefaults (h : NoBraces t) : NoBraces (stripDefaults t) := by
  rw [Signature.stripDefaults]
  split
  · exact h.trim
  · refine joinWith (by decide) fun bare hbare => ?_
    obtain ⟨part, hpart, rfl⟩ := List.mem_map.mp hbare
    have hpart : NoBraces part :=
      of_mem_joinWith (joinWith_splitTopLevelFrom ',' 0 t ▸ h) hpart
    refine trim ?_
    cases hdefault : beforeDefault? 0 part with
    | none => exact hpart
    | some before =>
      obtain ⟨value, rfl⟩ := exists_append_of_beforeDefault? hdefault
      exact fun c hc => hpart c (List.mem_append_left _ hc)

end HeaderSync.Text.NoBraces
