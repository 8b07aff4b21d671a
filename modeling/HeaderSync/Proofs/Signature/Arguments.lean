import HeaderSync.Proofs.Signature.TopLevel
import HeaderSync.Proofs.Text.Words

/-!
# Arguments without defaults

Stripping a list joins its trimmed arguments anew. It does not give the same text each time (blanks
at the end may stay behind), but cut once more it gives the same arguments, whatever brackets are
left open or closed too often.

* `bareArguments` : the arguments of a list, without blanks and defaults;
* `map_trim_splitTopLevel_stripDefaults` : they are what a stripped list is cut into;
* `argumentTokens_eq` : the tokens that a list is compared by are those of its bare arguments;
* `bareArguments_joinWith` : arguments that close their brackets stay apart when they are joined;
* `stripDefaults_invisible` : stripping is invisible to every comparison.
-/

namespace HeaderSync.Signature

open Text

theorem isSeparator_comma : IsSeparator ',' := by decide

theorem isBlank_comma : isBlank ',' = false := by decide

/-- The arguments of a list, without blanks at their ends and without defaults. -/
def bareArguments (args : Text) : List Text :=
  (splitTopLevel ',' args).map withoutDefault

theorem bareArguments_ne_nil (args : Text) : bareArguments args ≠ [] := by
  simpa [bareArguments, splitTopLevel] using splitTopLevelFrom_ne_nil ',' 0 args

/-! ## One argument -/

theorem withoutDefault_of_none {part : Text} (h : beforeDefault? 0 part = none) :
    withoutDefault part = trim part := by
  rw [withoutDefault, h, Option.getD_none]

theorem trim_withoutDefault (part : Text) : trim (withoutDefault part) = withoutDefault part :=
  trim_trim _

/-- Blanks in front of an argument do not count. -/
theorem withoutDefault_of_allBlank_append {pad : Text} (hpad : allBlank pad = true) (part : Text) :
    withoutDefault (pad ++ part) = withoutDefault part := by
  cases h : beforeDefault? 0 part with
  | none =>
    have hnone : beforeDefault? 0 (pad ++ part) = none := by
      rw [beforeDefault?_append_eq_none, depthOf_of_allBlank 0 hpad]
      exact ⟨beforeDefault?_of_allBlank 0 hpad, h⟩
    rw [withoutDefault_of_none h, withoutDefault_of_none hnone, trim_of_allBlank_append hpad]
  | some before =>
    obtain ⟨value, rfl⟩ := exists_append_of_beforeDefault? h
    obtain ⟨hnone, hdepth⟩ := beforeDefault?_eq_some h
    have hbefore : beforeDefault? 0 (pad ++ (before ++ '=' :: value)) = some (pad ++ before) := by
      rw [← List.append_assoc]
      apply beforeDefault?_append
      · rw [← beforeDefault?_eq_none_iff, beforeDefault?_append_eq_none,
          depthOf_of_allBlank 0 hpad]
        exact ⟨beforeDefault?_of_allBlank 0 hpad, hnone⟩
      · rw [depthOf_append, depthOf_of_allBlank 0 hpad, hdepth]
    rw [withoutDefault, withoutDefault, hbefore, h, Option.getD_some, Option.getD_some,
      trim_of_allBlank_append hpad]

/-- Stripping an argument takes away all that stands from its first `=` on. -/
theorem withoutDefault_default {declarator : Text} (hfree : ¬ AtTopLevel '=' 0 declarator)
    (hclosed : depthOf 0 declarator = 0) (value : Text) :
    withoutDefault (declarator ++ " = " ++ value) = trim declarator := by
  have hblank : ¬ AtTopLevel '=' 0 (declarator ++ [' ']) := by
    rw [atTopLevel_append, hclosed]
    rintro (htop | htop)
    · exact hfree htop
    · exact absurd htop (by decide)
  have hdepth : depthOf 0 (declarator ++ [' ']) = 0 := by
    rw [depthOf_append, hclosed]
    decide
  have hsplit : declarator ++ " = " ++ value = declarator ++ [' '] ++ '=' :: ' ' :: value := by simp
  rw [withoutDefault, hsplit, beforeDefault?_append hblank hdepth, Option.getD_some,
    trim_append_of_allBlank _ (by decide)]

theorem not_atTopLevel_withoutDefault {c : Char} {part : Text} (h : ¬ AtTopLevel c 0 part) :
    ¬ AtTopLevel c 0 (withoutDefault part) := by
  have htrim : ∀ t : Text, ¬ AtTopLevel c 0 t → ¬ AtTopLevel c 0 (trim t) := by
    intro t ht hc
    obtain ⟨l, r, heq, hl, -⟩ := exists_trim t
    refine ht ?_
    rw [heq, atTopLevel_append, atTopLevel_append, depthOf_of_allBlank 0 hl]
    exact .inr (.inl hc)
  rw [withoutDefault]
  cases hbefore : beforeDefault? 0 part with
  | none => exact htrim part h
  | some before =>
    obtain ⟨value, rfl⟩ := exists_append_of_beforeDefault? hbefore
    refine htrim before fun hc => h ?_
    exact atTopLevel_append.2 (.inl hc)

theorem topLevelParts_map_withoutDefault {parts : List Text} (h : TopLevelParts 0 parts) :
    TopLevelParts 0 (parts.map withoutDefault) := by
  match parts with
  | [] => trivial
  | [_] => trivial
  | _ :: next :: parts =>
    have hrest : TopLevelParts 0 ((next :: parts).map withoutDefault) :=
      topLevelParts_map_withoutDefault h.2
    exact ⟨depthOf_withoutDefault h.1, hrest⟩

/-! ## Lists cut once more -/

theorem map_modifyHead {f : Text → Text} {pad : Text} (hf : ∀ t, f (pad ++ t) = f t)
    (parts : List Text) : (parts.modifyHead (pad ++ ·)).map f = parts.map f := by
  cases parts with
  | nil => rfl
  | cons part parts => rw [List.modifyHead_cons, List.map_cons, hf, List.map_cons]

theorem map_trim_weld {parts : List Text} (hne : parts ≠ []) {r : Text} (hr : allBlank r = true) :
    (weld parts [r]).map trim = parts.map trim := by
  induction parts with
  | nil => exact absurd rfl hne
  | cons part parts ih =>
    cases parts with
    | nil =>
      rw [weld_singleton, List.modifyHead_cons, List.map_singleton, trim_append_of_allBlank _ hr,
        List.map_singleton]
    | cons next parts =>
      rw [weld_cons _ (List.cons_ne_nil _ _), List.map_cons, ih (List.cons_ne_nil _ _),
        ← List.map_cons]

/-- Blanks at the ends of a list are blanks at the ends of its parts. -/
theorem map_trim_splitTopLevel_trim (t : Text) :
    (splitTopLevel ',' (trim t)).map trim = (splitTopLevel ',' t).map trim := by
  obtain ⟨l, r, ht, hl, hr⟩ := exists_trim t
  have hrest : splitTopLevelFrom ',' (depthOf 0 (trim t)) r = [r] := by
    rw [splitTopLevelFrom_eq_singleton_iff isSeparator_comma]
    exact not_atTopLevel_of_allBlank isBlank_comma hr
  conv_rhs => rw [ht, splitTopLevel_of_allBlank_append isSeparator_comma isBlank_comma hl,
    map_modifyHead (trim_of_allBlank_append hl), splitTopLevel, splitTopLevelFrom_append, hrest,
    map_trim_weld (splitTopLevelFrom_ne_nil _ _ _) hr]
  rw [splitTopLevel]

/-- What blanks in front do not change is found again, argument by argument, where arguments that
close their brackets were joined. -/
theorem map_splitTopLevel_joinWith {f : Text → Text} {pad : Text} (hpad : allBlank pad = true)
    (hf : ∀ t, f (pad ++ t) = f t) {parts : List Text} (hne : parts ≠ [])
    (h : TopLevelParts 0 parts) :
    (splitTopLevel ',' (joinWith (',' :: pad) parts)).map f =
      parts.flatMap fun part => (splitTopLevel ',' part).map f := by
  obtain ⟨part, parts, rfl⟩ := List.exists_cons_of_ne_nil hne
  rw [splitTopLevel_joinWith isSeparator_comma isBlank_comma hpad _ _ h, List.map_append,
    List.map_flatMap, List.flatMap_cons]
  simp only [splitTopLevel_of_allBlank_append isSeparator_comma isBlank_comma hpad,
    map_modifyHead hf]

/-- Arguments that close their brackets stay apart when they are joined. -/
theorem bareArguments_joinWith {pad : Text} (hpad : allBlank pad = true) {parts : List Text}
    (hne : parts ≠ []) (h : TopLevelParts 0 parts) :
    bareArguments (joinWith (',' :: pad) parts) = parts.flatMap bareArguments :=
  map_splitTopLevel_joinWith hpad (withoutDefault_of_allBlank_append hpad) hne h

/-- With a default in the list, stripping joins the bare arguments. -/
theorem stripDefaults_of_some {args : Text} (h : beforeDefault? 0 args ≠ none) :
    stripDefaults args = joinWith ", " (bareArguments args) := by
  rw [stripDefaults, if_neg]
  · rfl
  · rw [ne_eq, ← beforeDefault?_eq_none_iff_parts] at h
    simpa using h

/-- A bare argument cannot be cut again. -/
theorem map_trim_splitTopLevel_of_mem {args bare : Text} (h : bare ∈ bareArguments args) :
    (splitTopLevel ',' bare).map trim = [bare] := by
  obtain ⟨part, hpart, rfl⟩ := List.mem_map.mp h
  have hnot := not_atTopLevel_withoutDefault
    (not_atTopLevel_of_mem_splitTopLevel isSeparator_comma hpart)
  rw [splitTopLevel, (splitTopLevelFrom_eq_singleton_iff isSeparator_comma).mpr hnot,
    List.map_singleton, trim_withoutDefault]

/-- A stripped list is cut into the bare arguments. -/
theorem map_trim_splitTopLevel_stripDefaults (args : Text) :
    (splitTopLevel ',' (trim (stripDefaults args))).map trim = bareArguments args := by
  rw [map_trim_splitTopLevel_trim]
  by_cases h : beforeDefault? 0 args = none
  · rw [stripDefaults_of_none h, map_trim_splitTopLevel_trim]
    refine List.map_congr_left fun part hpart => ?_
    rw [withoutDefault_of_none ((beforeDefault?_eq_none_iff_parts args).mpr h part hpart)]
  · have hclosed : TopLevelParts 0 (bareArguments args) :=
      topLevelParts_map_withoutDefault (topLevelParts_splitTopLevelFrom ',' 0 args)
    have hwhole : ∀ bare ∈ bareArguments args, (splitTopLevel ',' bare).map trim = [bare] :=
      fun _ => map_trim_splitTopLevel_of_mem
    have hpad : allBlank [' '] = true := by decide
    rw [stripDefaults_of_some h, show (", " : Text) = ',' :: [' '] from rfl,
      map_splitTopLevel_joinWith hpad (trim_of_allBlank_append hpad) (bareArguments_ne_nil args)
        hclosed, List.flatMap_def, List.map_congr_left hwhole, ← List.flatMap_def,
      List.flatMap_singleton']

/-- A stripped list has the same bare arguments. -/
theorem bareArguments_stripDefaults (args : Text) :
    bareArguments (stripDefaults args) = bareArguments args := by
  rw [← map_trim_splitTopLevel_stripDefaults args, map_trim_splitTopLevel_trim]
  refine List.map_congr_left fun part hpart => withoutDefault_of_none ?_
  exact (beforeDefault?_eq_none_iff_parts _).mpr (beforeDefault?_stripDefaults args) part hpart

/-! ## Tokens -/

theorem flatMap_detachChar {t : Text} (h : ∀ c ∈ t, c ≠ '*' ∧ c ≠ '&') :
    t.flatMap detachChar = t := by
  have hsingle : ∀ c ∈ t, detachChar c = [c] := by
    intro c hc
    rw [detachChar, if_neg (by simpa using h c hc)]
  rw [List.flatMap_def, List.map_congr_left hsingle, ← List.flatMap_def, List.flatMap_singleton']

theorem tokens_trim (t : Text) : tokens (trim t) = tokens t := by
  have hblank : ∀ {s : Text}, allBlank s = true → s.flatMap detachChar = s := by
    intro s hs
    refine flatMap_detachChar fun c hc => ?_
    have hc := List.all_eq_true.mp hs c hc
    constructor <;> (rintro rfl; exact absurd hc (by decide))
  obtain ⟨l, r, ht, hl, hr⟩ := exists_trim t
  conv_rhs => rw [ht]
  rw [tokens, tokens, List.flatMap_append, List.flatMap_append, hblank hl, hblank hr,
    words_of_allBlank_append hl, words_append_of_allBlank _ hr]

/-- Stripping defaults keeps the arguments and the tokens they are compared by, and makes no
difference to any comparison, whether the brackets of the list close or not. -/
theorem stripDefaults_invisible (args : Text) :
    bareArguments (stripDefaults args) = bareArguments args ∧
      argumentTokens (stripDefaults args) = argumentTokens args ∧
      argumentsEqual args (stripDefaults args) = true ∧
      ∀ other, argumentsEqual (stripDefaults args) other = argumentsEqual args other := by
  refine ⟨bareArguments_stripDefaults args, argumentTokens_stripDefaults args, ?_, fun other => ?_⟩
  · rw [argumentsEqual, argumentTokens_stripDefaults, sameArguments_self]
  · rw [argumentsEqual, argumentsEqual, argumentTokens_stripDefaults]

/-- Blanks may stay at the end, so that stripping once more gives another text. -/
example : stripDefaults "int a = 1, " = ("int a, " : Text) ∧
    stripDefaults "int a, " = ("int a," : Text) := by decide

end HeaderSync.Signature
