import HeaderSync.Names
import Mathlib.Tactic.Common

/-!
# Requests for the names of a class

A class may be asked for its names again and again, for any modes and with another provider each
time. What a mode was given once stays, and no question is asked twice.

* `NameRequest` : a provider and the modes that need a name; its answers may depend on all questions
  asked before;
* `Inquiry.step`, `Inquiry.request`, `Inquiry.run` : one mode, one request, and requests in order,
  with the questions asked on the way;
* `Inquiry.step_cases` : what one mode can do;
* `Inquiry.Consistent` : what holds after every step, `Inquiry.Keeps` : what later steps keep;
* `Inquiry.names_resolved_once` : all runs.
-/

namespace HeaderSync

/-- The question is about an implementation. -/
def NameQuestion.isImplementation : NameQuestion → Bool
  | implementationOf _ => true
  | interfaceOf _ => false

namespace ClassNames

/-- The question that a mode calls for. -/
def question? (names : ClassNames) : Mode → Option NameQuestion
  | .implHeader | .implSource =>
    if names.isInterface then some (.implementationOf names.declared) else none
  | .interfaceHeader => some (.interfaceOf names.declared)
  | _ => none

/-- The names with the answer to a question. -/
def answered (names : ClassNames) (answer : Text) : NameQuestion → ClassNames
  | .implementationOf _ => { names with implHeader := some answer, implSource := some answer }
  | .interfaceOf _ => { names with interfaceHeader := some answer }

/-- A mode asks the question that it calls for, unless its name is known. -/
theorem resolveOne_eq {m : Type → Type} [Monad m] (ask : NameQuestion → m Text) (mode : Mode)
    (names : ClassNames) : names.resolveOne ask mode =
      match names.provided? mode, names.question? mode with
      | none, some question => do return names.answered (← ask question) question
      | _, _ => pure names := by
  unfold resolveOne
  cases hknown : names.provided? mode with
  | some name => rfl
  | none =>
    rw [if_neg (by simp)]
    cases mode with
    | header | source | interfaceHeader | factoryHeader => rfl
    | implHeader | implSource => cases h : names.isInterface <;> simp [question?, answered, h]

/-- An answer goes to all modes that call for the question, and to no other. -/
theorem provided?_answered {names : ClassNames} {mode : Mode} {question : NameQuestion}
    (h : names.question? mode = some question) (answer : Text) (other : Mode) :
    (names.answered answer question).provided? other =
      if names.question? other = some question then some answer else names.provided? other := by
  cases question with
  | implementationOf name =>
    obtain ⟨hinterface, rfl⟩ : names.isInterface = true ∧ names.declared = name := by
      cases mode <;> simp_all [question?]
    cases other <;> simp [question?, answered, provided?, hinterface]
  | interfaceOf name =>
    obtain rfl : names.declared = name := by
      cases mode <;> simp_all [question?]
    cases other <;> simp [question?, answered, provided?]

theorem question?_answered (names : ClassNames) (answer : Text) (question : NameQuestion)
    (mode : Mode) : (names.answered answer question).question? mode = names.question? mode := by
  cases question <;> cases mode <;> rfl

end ClassNames

/-- Who is asked, and for which modes. The answer may depend on all questions asked before. -/
structure NameRequest where
  answer : (asked : List NameQuestion) → NameQuestion → Text
  modes : List Mode

namespace NameRequest

/-- Asks the question and notes it. -/
def ask (request : NameRequest) (question : NameQuestion) : StateM (List NameQuestion) Text :=
  fun asked => (request.answer asked question, asked ++ [question])

/-- The request to a provider that answers a question always alike. -/
def ofProvider (provider : NameProvider) (modes : List Mode) : NameRequest :=
  ⟨fun _ => provider, modes⟩

end NameRequest

/-- The names of a class, and the questions asked for them. -/
structure Inquiry where
  names : ClassNames
  asked : List NameQuestion

namespace Inquiry

/-- A class as it is declared, and no question asked. -/
def start (declared : Text) (isInterface : Bool) : Inquiry :=
  ⟨.ofDeclared declared isInterface, []⟩

def ofRun (run : ClassNames × List NameQuestion) : Inquiry :=
  ⟨run.1, run.2⟩

/-- The request is met for one mode. -/
def step (r : NameRequest) (s : Inquiry) (mode : Mode) : Inquiry :=
  ofRun ((s.names.resolveOne r.ask mode).run s.asked)

/-- The request is met for all its modes. -/
def request (s : Inquiry) (r : NameRequest) : Inquiry :=
  ofRun ((s.names.resolveWith r.ask r.modes).run s.asked)

/-- The requests are met in order. -/
def run (s : Inquiry) (requests : List NameRequest) : Inquiry :=
  requests.foldl request s

theorem request_eq (s : Inquiry) (r : NameRequest) : s.request r = r.modes.foldl (step r) s := by
  have h : ∀ (modes : List Mode) (s : Inquiry),
      ofRun ((s.names.resolveWith r.ask modes).run s.asked) = modes.foldl (step r) s := by
    intro modes
    induction modes with
    | nil => exact fun s => rfl
    | cons mode modes ih =>
      intro s
      rw [List.foldl_cons, ← ih]
      rfl
  exact h r.modes s

theorem run_append (s : Inquiry) (before after : List NameRequest) :
    s.run (before ++ after) = (s.run before).run after :=
  List.foldl_append

/-! ## One mode -/

variable {s : Inquiry} {r : NameRequest} {mode : Mode} {question : NameQuestion}

/-- What one mode can do: nothing, if its name is known or it calls for no question; or else the
question is asked and answered. -/
theorem step_cases (r : NameRequest) (s : Inquiry) (mode : Mode) :
    (s.step r mode = s ∧ ((s.names.provided? mode).isSome ∨ s.names.question? mode = none)) ∨
    ∃ question, s.names.question? mode = some question ∧ s.names.provided? mode = none ∧
      s.step r mode = ⟨s.names.answered (r.answer s.asked question) question,
        s.asked ++ [question]⟩ := by
  rw [step, ClassNames.resolveOne_eq]
  cases hknown : s.names.provided? mode with
  | some name => exact .inl ⟨rfl, .inl rfl⟩
  | none =>
    cases hquestion : s.names.question? mode with
    | none => exact .inl ⟨rfl, .inr rfl⟩
    | some question => exact .inr ⟨question, rfl, rfl, rfl⟩

/-- After its turn, a mode that calls for a question has a name. -/
theorem isSome_provided?_step (r : NameRequest) (s : Inquiry)
    (h : s.names.question? mode = some question) :
    ((s.step r mode).names.provided? mode).isSome := by
  obtain ⟨heq, hsome | hnone⟩ | ⟨q, hq, -, heq⟩ := s.step_cases r mode
  · rw [heq]
    exact hsome
  · rw [hnone] at h
    cases h
  · rw [heq, ClassNames.provided?_answered hq, if_pos hq]
    rfl

/-- A provider that answers always alike is asked for the names that it resolves. -/
theorem names_step_ofProvider (s : Inquiry) (provider : NameProvider) (modes : List Mode)
    (mode : Mode) : (s.step (.ofProvider provider modes) mode).names =
      s.names.resolveOne (m := Id) provider mode := by
  rw [step, ClassNames.resolveOne_eq, ClassNames.resolveOne_eq]
  cases s.names.provided? mode with
  | some name => rfl
  | none => cases s.names.question? mode <;> rfl

theorem names_request_ofProvider (s : Inquiry) (provider : NameProvider) (modes : List Mode) :
    (s.request (.ofProvider provider modes)).names = s.names.resolve provider modes := by
  have h : ∀ (rest : List Mode) (s : Inquiry),
      (rest.foldl (step (.ofProvider provider modes)) s).names = s.names.resolve provider rest := by
    intro rest
    induction rest with
    | nil => exact fun s => rfl
    | cons mode rest ih =>
      intro s
      rw [List.foldl_cons, ih, names_step_ofProvider]
      rfl
  rw [request_eq]
  exact h modes s

theorem names_run_ofProvider (s : Inquiry) (calls : List (NameProvider × List Mode)) :
    (s.run (calls.map fun call => .ofProvider call.1 call.2)).names =
      calls.foldl (fun names call => names.resolve call.1 call.2) s.names := by
  induction calls generalizing s with
  | nil => rfl
  | cons call calls ih =>
    rw [List.foldl_cons, ← names_request_ofProvider, ← ih]
    rfl

/-! ## What every step keeps -/

/-- Modes that call for the same question have the same name, each question was asked as often as
it has an answer, and no other question was asked. -/
structure Consistent (s : Inquiry) : Prop where
  provided_eq : ∀ {mode other}, s.names.question? mode = s.names.question? other →
    s.names.provided? mode = s.names.provided? other
  count_asked : ∀ {mode question}, s.names.question? mode = some question →
    s.asked.count question = (s.names.provided? mode).toList.length
  exists_mode : ∀ question ∈ s.asked, ∃ mode, s.names.question? mode = some question

/-- It is the same class, no name is lost or changed, and no question is taken back. -/
structure Keeps (s later : Inquiry) : Prop where
  declared_eq : later.names.declared = s.names.declared
  isInterface_eq : later.names.isInterface = s.names.isInterface
  provided_of : ∀ {mode name}, s.names.provided? mode = some name →
    later.names.provided? mode = some name
  asked_prefix : s.asked <+: later.asked

theorem Keeps.refl (s : Inquiry) : s.Keeps s := ⟨rfl, rfl, id, List.prefix_rfl⟩

theorem Keeps.trans {t u : Inquiry} (hst : s.Keeps t) (htu : t.Keeps u) : s.Keeps u :=
  ⟨htu.declared_eq.trans hst.declared_eq, htu.isInterface_eq.trans hst.isInterface_eq,
    fun h => htu.provided_of (hst.provided_of h), hst.asked_prefix.trans htu.asked_prefix⟩

theorem Keeps.question?_eq {later : Inquiry} (h : s.Keeps later) (mode : Mode) :
    later.names.question? mode = s.names.question? mode := by
  cases mode <;> simp [ClassNames.question?, h.declared_eq, h.isInterface_eq]

theorem consistent_start (declared : Text) (isInterface : Bool) :
    (start declared isInterface).Consistent where
  provided_eq := by
    intro mode other _
    cases mode <;> cases other <;> rfl
  count_asked := by
    intro mode question _
    cases mode <;> rfl
  exists_mode := List.forall_mem_nil _

theorem Consistent.keeps_step (h : s.Consistent) (r : NameRequest) (mode : Mode) :
    s.Keeps (s.step r mode) := by
  obtain ⟨heq, -⟩ | ⟨question, hq, hnone, heq⟩ := s.step_cases r mode
  · rw [heq]
    exact .refl s
  · rw [heq]
    refine ⟨by cases question <;> rfl, by cases question <;> rfl, fun {other name} hname => ?_,
      List.prefix_append _ _⟩
    -- A mode that calls for the same question has no name either.
    have hother : s.names.question? other ≠ some question := by
      intro hsame
      rw [h.provided_eq (hsame.trans hq.symm), hnone] at hname
      cases hname
    rw [ClassNames.provided?_answered hq, if_neg hother]
    exact hname

theorem Consistent.step (h : s.Consistent) (r : NameRequest) (mode : Mode) :
    (s.step r mode).Consistent := by
  obtain ⟨heq, -⟩ | ⟨question, hq, hnone, heq⟩ := s.step_cases r mode
  · rw [heq]
    exact h
  · rw [heq]
    constructor
    · intro other another hsame
      simp only [ClassNames.question?_answered] at hsame
      simp only [ClassNames.provided?_answered hq, hsame, h.provided_eq hsame]
    · intro other q hother
      simp only [ClassNames.question?_answered] at hother
      simp only [ClassNames.provided?_answered hq, hother, List.count_append, h.count_asked hother]
      by_cases hsame : q = question
      · subst hsame
        have : s.names.provided? other = none := by
          rw [h.provided_eq (hother.trans hq.symm), hnone]
        simp [this]
      · simp [hsame, Ne.symm hsame]
    · intro q hmem
      simp only [ClassNames.question?_answered]
      rcases List.mem_append.mp hmem with hmem | hmem
      · exact h.exists_mode q hmem
      · rw [List.mem_singleton.mp hmem]
        exact ⟨mode, hq⟩

/-! ## Runs -/

theorem Consistent.modes (h : s.Consistent) (r : NameRequest) (modes : List Mode) :
    (modes.foldl (Inquiry.step r) s).Consistent ∧ s.Keeps (modes.foldl (Inquiry.step r) s) := by
  refine List.foldlRecOn modes (motive := fun t => t.Consistent ∧ s.Keeps t) (Inquiry.step r)
    ⟨h, .refl s⟩ fun t ht mode _ => ?_
  exact ⟨ht.1.step r mode, ht.2.trans (ht.1.keeps_step r mode)⟩

theorem Consistent.request (h : s.Consistent) (r : NameRequest) :
    (s.request r).Consistent ∧ s.Keeps (s.request r) := by
  rw [request_eq]
  exact h.modes r r.modes

theorem Consistent.run (h : s.Consistent) (requests : List NameRequest) :
    (s.run requests).Consistent ∧ s.Keeps (s.run requests) := by
  refine List.foldlRecOn requests (motive := fun t => t.Consistent ∧ s.Keeps t) Inquiry.request
    ⟨h, .refl s⟩ fun t ht r _ => ?_
  obtain ⟨hconsistent, hkeeps⟩ := ht.1.request r
  exact ⟨hconsistent, ht.2.trans hkeeps⟩

/-! ## Answers -/

/-- If the mode has a name, it is what the request answered to the question, asked at that point. -/
def NamedBy (r : NameRequest) (mode : Mode) (question : NameQuestion) (s : Inquiry) : Prop :=
  s.names.provided? mode = none ∨ ∃ asked, asked ++ [question] <+: s.asked ∧
    s.names.provided? mode = some (r.answer asked question)

theorem NamedBy.step (hnamed : NamedBy r mode question s) (h : s.Consistent)
    (hquestion : s.names.question? mode = some question) (other : Mode) :
    NamedBy r mode question (s.step r other) := by
  rcases hnamed with hnone | ⟨asked, hasked, hname⟩
  · obtain ⟨heq, -⟩ | ⟨q, hq, -, heq⟩ := s.step_cases r other
    · rw [heq]
      exact .inl hnone
    · rw [heq, NamedBy]
      simp only [ClassNames.provided?_answered hq, hquestion]
      split
      · rename_i hsame
        rw [Option.some.inj hsame]
        exact .inr ⟨s.asked, List.prefix_rfl, rfl⟩
      · exact .inl hnone
  · have hkeeps := h.keeps_step r other
    exact .inr ⟨asked, hasked.trans hkeeps.asked_prefix, hkeeps.provided_of hname⟩

/-- A request leaves no mode without a name that it was for and that calls for a question. -/
theorem Consistent.isSome_provided?_request (h : s.Consistent) (hmode : mode ∈ r.modes)
    (hquestion : s.names.question? mode = some question) :
    ((s.request r).names.provided? mode).isSome := by
  obtain ⟨before, after, hmodes⟩ := List.append_of_mem hmode
  obtain ⟨hconsistent, hkeeps⟩ := h.modes r before
  obtain ⟨name, hname⟩ := Option.isSome_iff_exists.mp
    (isSome_provided?_step r _ ((hkeeps.question?_eq mode).trans hquestion))
  rw [request_eq, hmodes, List.foldl_append, List.foldl_cons,
    ((hconsistent.step r mode).modes r after).2.provided_of hname]
  rfl

/-- A mode without a name gets one from the first request for it. -/
theorem Consistent.exists_answer (h : s.Consistent) (hmode : mode ∈ r.modes)
    (hquestion : s.names.question? mode = some question)
    (hnone : s.names.provided? mode = none) :
    ∃ asked, asked ++ [question] <+: (s.request r).asked ∧
      (s.request r).names.provided? mode = some (r.answer asked question) := by
  have hnamed : NamedBy r mode question (s.request r) := by
    rw [request_eq]
    refine (List.foldlRecOn r.modes (motive := fun t => (t.Consistent ∧ s.Keeps t) ∧
      NamedBy r mode question t) (Inquiry.step r) ⟨⟨h, .refl s⟩, .inl hnone⟩
      fun t ht other _ => ?_).2
    obtain ⟨⟨hconsistent, hkeeps⟩, hnamed⟩ := ht
    exact ⟨⟨hconsistent.step r other, hkeeps.trans (hconsistent.keeps_step r other)⟩,
      hnamed.step hconsistent ((hkeeps.question?_eq mode).trans hquestion) other⟩
  refine hnamed.resolve_left fun hnone => ?_
  have hsome := h.isSome_provided?_request hmode hquestion
  rw [hnone] at hsome
  cases hsome

/-! ## Questions -/

/-- The only questions are those about the class itself, and one about an implementation is for an
interface. -/
theorem Consistent.eq_of_mem_asked (h : s.Consistent) (hmem : question ∈ s.asked) :
    s.names.isInterface = true ∧ question = .implementationOf s.names.declared ∨
      question = .interfaceOf s.names.declared := by
  obtain ⟨mode, hmode⟩ := h.exists_mode question hmem
  cases mode <;> simp_all [ClassNames.question?]

/-- A kind of question that has one form only was asked at most once. -/
theorem Consistent.countP_le_one (h : s.Consistent) {kind : NameQuestion → Bool}
    (question : NameQuestion) (hkind : ∀ q ∈ s.asked, kind q = true → q = question) :
    s.asked.countP kind ≤ 1 := by
  have hle : s.asked.countP kind ≤ s.asked.count question :=
    List.countP_mono_left fun q hq hk => beq_iff_eq.mpr (hkind q hq hk)
  by_cases hasked : question ∈ s.asked
  · obtain ⟨mode, hmode⟩ := h.exists_mode question hasked
    refine Nat.le_trans (h.count_asked hmode ▸ hle) ?_
    cases s.names.provided? mode <;> simp
  · rw [List.count_eq_zero_of_not_mem hasked] at hle
    omega

theorem Consistent.countP_implementation_le (h : s.Consistent) :
    s.asked.countP NameQuestion.isImplementation ≤ 1 := by
  refine h.countP_le_one (.implementationOf s.names.declared) fun q hq hkind => ?_
  obtain ⟨-, rfl⟩ | rfl := h.eq_of_mem_asked hq
  · rfl
  · cases hkind

theorem Consistent.countP_interface_le (h : s.Consistent) :
    s.asked.countP (fun question => !question.isImplementation) ≤ 1 := by
  refine h.countP_le_one (.interfaceOf s.names.declared) fun q hq hkind => ?_
  obtain ⟨-, rfl⟩ | rfl := h.eq_of_mem_asked hq
  · cases hkind
  · rfl

theorem Consistent.countP_implementation_eq_zero (h : s.Consistent)
    (hplain : s.names.isInterface = false) :
    s.asked.countP NameQuestion.isImplementation = 0 := by
  refine List.countP_eq_zero.mpr fun q hq => ?_
  obtain ⟨hinterface, -⟩ | rfl := h.eq_of_mem_asked hq
  · rw [hplain] at hinterface
    cases hinterface
  · exact Bool.false_ne_true

/-! ## All runs -/

/-- Requests for the names of a class, from any providers, for any modes and in any order. After
each of them, the two modes of an implementation have the same name or none. What a mode was given
keeps its name from then on. The name of an implementation is asked for at most once, and never for
a class that is not an interface; that of an interface is asked for at most once. The names in the
other modes are those of the declaration. A mode that calls for a question gets its name from the
first request for it. Providers without a memory resolve the names as if nothing was noted. -/
theorem names_resolved_once (declared : Text) (isInterface : Bool)
    (before after : List NameRequest) :
    let first := start declared isInterface
    let early := first.run before
    let late := first.run (before ++ after)
    early.names.provided? .implHeader = early.names.provided? .implSource ∧
    (∀ mode, (early.names.provided? mode).isSome →
      late.names.provided? mode = early.names.provided? mode ∧
      late.names.name mode = early.names.name mode ∧
      late.names.resolvedName mode = early.names.resolvedName mode) ∧
    late.asked.countP NameQuestion.isImplementation ≤ 1 ∧
    (isInterface = false → late.asked.countP NameQuestion.isImplementation = 0) ∧
    late.asked.countP (fun question => !question.isImplementation) ≤ 1 ∧
    (∀ mode ∈ [Mode.header, .source, .factoryHeader],
      late.names.name mode = first.names.name mode ∧
      late.names.resolvedName mode = first.names.resolvedName mode) ∧
    (∀ r mode question, mode ∈ r.modes → first.names.question? mode = some question →
      early.names.provided? mode = none →
      ∃ asked, asked ++ [question] <+: (early.run (r :: after)).asked ∧
        (early.run (r :: after)).names.provided? mode = some (r.answer asked question)) ∧
    ∀ calls : List (NameProvider × List Mode),
      (first.run (calls.map fun call => .ofProvider call.1 call.2)).names =
        calls.foldl (fun names call => names.resolve call.1 call.2) first.names := by
  intro first early late
  have hfirst : first.Consistent := consistent_start declared isInterface
  obtain ⟨hearly, hkept⟩ := hfirst.run before
  obtain ⟨hlate, hsame⟩ := hfirst.run (before ++ after)
  refine ⟨hearly.provided_eq rfl, fun mode hsome => ?_, hlate.countP_implementation_le,
    fun hplain => hlate.countP_implementation_eq_zero (hsame.isInterface_eq.trans hplain),
    hlate.countP_interface_le, fun mode hmode => ?_,
    fun r mode question hmode hquestion hnone => ?_, names_run_ofProvider first⟩
  · obtain ⟨name, hname⟩ := Option.isSome_iff_exists.mp hsome
    have hlater : late.names.provided? mode = some name := by
      have h := (hearly.run after).2.provided_of hname
      rwa [← run_append] at h
    simp only [ClassNames.name, ClassNames.resolvedName, hname, hlater, Option.getD_some, and_self]
  · have hdeclared : late.names.declared = first.names.declared := hsame.declared_eq
    simp only [List.mem_cons, List.not_mem_nil, or_false] at hmode
    obtain rfl | rfl | rfl := hmode <;>
      simp [ClassNames.name, ClassNames.resolvedName, ClassNames.provided?, ClassNames.fallback,
        hdeclared]
  · obtain ⟨asked, hasked, hname⟩ :=
      hearly.exists_answer hmode ((hkept.question?_eq mode).trans hquestion) hnone
    obtain ⟨-, hkeeps⟩ := (hearly.request r).1.run after
    exact ⟨asked, hasked.trans hkeeps.asked_prefix, hkeeps.provided_of hname⟩

end Inquiry

end HeaderSync
