import SourceLayout.Proofs.Editor.Synchronization
import SourceLayout.Proofs.Line

/-!
# Reports of failures

A session keeps the errors that the last formatting of a document had, and a request for edits shows
what it finds there. Only open documents have errors in the table, and formatting sets those of its
own document anew. So what a request shows is what its own formatting came to.
-/

namespace SourceLayout.Session

/-- The address among the arguments of the command, if they name a document. -/
def address? (arguments : List Value) : Option Text :=
  match (target arguments).1 with
  | .text uri => uri.text?
  | _ => none

/-- What is shown of the errors of a formatting. -/
def report (errors : List String) : List Notice :=
  if errors.isEmpty then [] else [failed errors]

/-- The edits that an outcome is worth. -/
def editsOf (document : Document) (outcome : Outcome) : List Edit :=
  if outcome.succeeded && outcome.changed then [⟨document.lines.length, outcome.text⟩] else []

/-- The reply to a request for edits of an open document. -/
def formatReply (session : Session) (uri : Text) (document : Document) (outcome : Outcome) :
    Reply where
  session := session.putErrors uri outcome.errors
  answer := .edits (editsOf document outcome)
  notices := report outcome.errors

/-- The reply to the command for an open document. -/
def tidyReply (session : Session) (uri : Text) (document : Document) (outcome : Outcome) :
    Reply where
  session := session.putErrors uri outcome.errors
  answer := .finished outcome.succeeded
  notices :=
    if outcome.succeeded then [⟨.info, "Code beautified successfully!"⟩] else report outcome.errors
  applied :=
    if (editsOf document outcome).isEmpty then [] else [(uri, editsOf document outcome)]

/-! ### The table of errors -/

theorem lookup_putErrors (session : Session) (uri other : Text) (errors : List String) :
    (session.putErrors uri errors).errors.lookup other =
      if other = uri then (if errors.isEmpty then none else some errors)
      else session.errors.lookup other := by
  rw [putErrors]
  dsimp only
  split
  next hempty => rw [lookup_filter]
  next hempty =>
      split
      next hother => rw [hother, lookup_putEntry]
      next hother => rw [lookup_putEntry_of_ne hother]

theorem errorsOf_putErrors (session : Session) (uri : Text) (errors : List String) :
    (session.putErrors uri errors).errorsOf uri = errors := by
  rw [errorsOf, lookup_putErrors, if_pos rfl]
  cases errors <;> rfl

@[simp]
theorem document?_putErrors (session : Session) (uri other : Text) (errors : List String) :
    (session.putErrors uri errors).document? other = session.document? other :=
  rfl

/-! ### What formatting steps reply -/

theorem edits_putErrors {session : Session} {uri : Text} {document : Document}
    (hopen : session.document? uri = some document) (outcome : Outcome) (errors : List String) :
    (session.putErrors uri errors).edits uri (some outcome) = editsOf document outcome := by
  simp [edits, hopen, editsOf]

theorem answerFormat_of_none [Machine] {session : Session} {uri : Text}
    (hclosed : session.document? uri = none) (options : Option Options) :
    session.answerFormat uri options =
      .ok { session, answer := .edits [], notices := report (session.errorsOf uri) } := by
  rw [answerFormat, format, hclosed]
  simp [bind, Except.bind, pure, Except.pure, edits, hclosed, report]

theorem answerFormat_of_some [Machine] {session : Session} {uri : Text} {document : Document}
    (hopen : session.document? uri = some document) (options : Option Options) :
    session.answerFormat uri options =
      (outcome options document).map (session.formatReply uri document) := by
  rw [answerFormat, format, hopen]
  dsimp only
  cases outcome options document with
  | error failure => rfl
  | ok outcome =>
      have hedits := edits_putErrors hopen outcome outcome.errors
      have herrors := errorsOf_putErrors session uri outcome.errors
      simp only [bind, Except.bind, pure, Except.pure, Except.map, formatReply, hedits, herrors,
        report]

theorem tidyAt_of_none [Machine] {session : Session} {uri : Text}
    (hclosed : session.document? uri = none) (options : Option Options) :
    session.tidyAt uri options = .ok session.nothingOpen := by
  rw [tidyAt, format, hclosed]
  rfl

theorem tidyAt_of_some [Machine] {session : Session} {uri : Text} {document : Document}
    (hopen : session.document? uri = some document) (options : Option Options) :
    session.tidyAt uri options =
      (outcome options document).map (session.tidyReply uri document) := by
  rw [tidyAt, format, hopen]
  dsimp only
  cases outcome options document with
  | error failure => rfl
  | ok outcome =>
      have hedits := edits_putErrors hopen outcome outcome.errors
      cases hempty : outcome.errors.isEmpty <;>
        simp [bind, Except.bind, pure, Except.pure, Except.map, tidyReply, report, editsOf,
          Outcome.succeeded, hempty, hedits]

/-- Where the arguments name no document, the command shows that nothing is open, or refuses. -/
theorem tidy_of_none [Machine] {arguments : List Value} (hnone : address? arguments = none) :
    (∀ session : Session, session.tidy arguments = .ok session.nothingOpen) ∨
      ∀ session : Session, session.tidy arguments = .error .badAddress := by
  rw [address?] at hnone
  simp only [tidy]
  generalize target arguments = named at hnone ⊢
  obtain ⟨uri, options⟩ := named
  cases uri with
  | text uri =>
      refine .inl fun session => ?_
      dsimp only at hnone ⊢
      rw [hnone]
  | list | table => exact .inr fun _ => rfl
  | null | bool | int | float | moment => exact .inl fun _ => rfl

theorem tidy_of_some [Machine] {arguments : List Value} {uri : Text}
    (huri : address? arguments = some uri) (session : Session) :
    session.tidy arguments =
      (session.tidyAt uri (Options.ofEditor? (target arguments).2)).mapError .formatting := by
  rw [address?] at huri
  rw [tidy]
  generalize target arguments = named at huri ⊢
  obtain ⟨spelled, options⟩ := named
  cases spelled with
  | text spelled =>
      dsimp only at huri ⊢
      rw [huri]
  | null | bool | int | float | moment | list | table => cases huri

theorem mem_report {errors : List String} {notice : Notice} :
    notice ∈ report errors ↔ errors ≠ [] ∧ notice = failed errors := by
  cases errors <;> simp [report]

theorem mem_editsOf {document : Document} {outcome : Outcome} {edit : Edit} :
    edit ∈ editsOf document outcome ↔
      outcome.succeeded = true ∧ outcome.changed = true ∧
        edit = ⟨document.lines.length, outcome.text⟩ := by
  rw [editsOf]
  split <;> simp_all

/-! ### Formatting steps -/

/-- The steps that ask for a formatting. -/
def Step.IsFormatting : Step → Prop
  | .format _ _ | .tidy _ => True
  | _ => False

/-- The document that a step asks to be formatted, and the options for it. -/
def Step.formats? : Step → Option (Text × Option Options)
  | .format uri options => some (uri, options)
  | .tidy arguments =>
      (address? arguments).map fun uri => (uri, Options.ofEditor? (target arguments).2)
  | _ => none

/-- The open document that a step asks to be formatted, with its address, and what this very
formatting comes to. -/
def formatted? [Machine] (session : Session) (step : Step) : Option (Text × Document × Outcome) :=
  step.formats?.bind fun (uri, options) =>
    (session.document? uri).bind fun document =>
      (outcome options document).toOption.map fun result => (uri, document, result)

/-- The edits a reply has, as its answer or to be applied. -/
def Reply.handed (reply : Reply) : List Edit :=
  (match reply.answer with
    | .edits edits => edits
    | _ => []) ++ reply.applied.flatMap Prod.snd

/-- A reply that shows the errors of an outcome, and has its edit. -/
structure Reply.Reports (reply : Reply) (uri : Text) (document : Document) (outcome : Outcome) :
    Prop where
  notices (notice : Notice) : notice ∈ reply.notices ∧ notice.level = .error ↔
    outcome.errors ≠ [] ∧ notice = failed outcome.errors
  handed : reply.handed = editsOf document outcome
  errors : reply.session.errorsOf uri = outcome.errors

theorem mem_report_error {errors : List String} {notice : Notice} :
    notice ∈ report errors ∧ notice.level = .error ↔ errors ≠ [] ∧ notice = failed errors := by
  rw [mem_report, and_iff_left_iff_imp]
  rintro ⟨_, rfl⟩
  rfl

theorem reports_formatReply (session : Session) (uri : Text) (document : Document)
    (outcome : Outcome) :
    (session.formatReply uri document outcome).Reports uri document outcome where
  notices _ := mem_report_error
  handed := List.append_nil _
  errors := errorsOf_putErrors session uri outcome.errors

theorem reports_tidyReply (session : Session) (uri : Text) (document : Document)
    (outcome : Outcome) :
    (session.tidyReply uri document outcome).Reports uri document outcome where
  notices notice := by
    rw [tidyReply]
    dsimp only
    split
    next hsucceeded =>
        have hnone : outcome.errors = [] := List.isEmpty_iff.mp hsucceeded
        simp only [hnone, ne_eq, not_true_eq_false, false_and, iff_false, List.mem_singleton]
        rintro ⟨rfl, hlevel⟩
        cases hlevel
    next => exact mem_report_error
  handed := by
    rw [Reply.handed, tidyReply]
    dsimp only
    split
    next hempty => rw [List.isEmpty_iff.mp hempty]; rfl
    next => simp
  errors := errorsOf_putErrors session uri outcome.errors

/-! ### Errors of open documents only -/

/-- Every entry in the table of errors is that of an open document. -/
def Guarded (session : Session) : Prop :=
  ∀ uri, session.document? uri = none → session.errors.lookup uri = none

theorem Guarded.putDocument {session : Session} (h : session.Guarded) (uri : Text)
    (document : Document) : (session.putDocument uri document).Guarded := by
  intro other hclosed
  by_cases hother : other = uri
  · rw [hother, document?_putDocument] at hclosed
    cases hclosed
  · rw [document?_putDocument_of_ne session hother] at hclosed
    exact h other hclosed

theorem Guarded.putErrors {session : Session} (h : session.Guarded) {uri : Text}
    {document : Document} (hopen : session.document? uri = some document) (errors : List String) :
    (session.putErrors uri errors).Guarded := by
  intro other hclosed
  rw [document?_putErrors] at hclosed
  have hother : other ≠ uri := by
    rintro rfl
    rw [hopen] at hclosed
    cases hclosed
  rw [lookup_putErrors, if_neg hother]
  exact h other hclosed

theorem Guarded.close {session : Session} (h : session.Guarded) (uri : Text) :
    (session.close uri).Guarded := by
  intro other hclosed
  rw [document?, Session.close, lookup_filter] at hclosed
  rw [Session.close, lookup_filter]
  split
  next => rfl
  next hother =>
      rw [if_neg hother] at hclosed
      exact h other hclosed

theorem Guarded.change {session : Session} (h : session.Guarded) (uri : Text) (version : Int)
    (changes : List Change) : (session.change uri version changes).Guarded := by
  rw [Session.change]
  split
  next => exact h
  next document _ =>
      split
      next => exact h
      next => exact h.putDocument uri _

/-! ### What formatting steps do -/

theorem formatted?_of_closed [Machine] {session : Session} {step : Step} {uri : Text}
    {options : Option Options} (hformats : step.formats? = some (uri, options))
    (hclosed : session.document? uri = none) : session.formatted? step = none := by
  simp [formatted?, hformats, hclosed]

theorem formatted?_of_open [Machine] {session : Session} {step : Step} {uri : Text}
    {options : Option Options} {document : Document} {result : Outcome}
    (hformats : step.formats? = some (uri, options)) (hopen : session.document? uri = some document)
    (hresult : outcome options document = .ok result) :
    session.formatted? step = some (uri, document, result) := by
  simp [formatted?, hformats, hopen, hresult, Except.toOption]

/-- A reply that changes nothing, and shows at most the errors kept of documents that are not
open. -/
structure Reply.Idle (session : Session) (reply : Reply) : Prop where
  session_eq : reply.session = session
  handed : reply.handed = []
  notices : ∀ notice ∈ reply.notices, notice.level = .error →
    ∃ uri, session.document? uri = none ∧ session.errorsOf uri ≠ []

theorem idle_edits {session : Session} {uri : Text} (hclosed : session.document? uri = none) :
    Reply.Idle session
      { session, answer := .edits [], notices := report (session.errorsOf uri) } where
  session_eq := rfl
  handed := rfl
  notices _ hnotice _ := ⟨uri, hclosed, (mem_report.mp hnotice).1⟩

theorem idle_nothingOpen (session : Session) : Reply.Idle session session.nothingOpen where
  session_eq := rfl
  handed := rfl
  notices _ hnotice hlevel := by
    obtain rfl := List.mem_singleton.mp hnotice
    cases hlevel

/-- A formatting step that is done reports the outcome of its own document, or there is no such
outcome and it is idle. -/
theorem reply_cases [Machine] {session : Session} {step : Step} {reply : Reply}
    (hstep : session.step step = .ok reply) (hformatting : step.IsFormatting) :
    (∃ uri document result, session.formatted? step = some (uri, document, result) ∧
      session.document? uri = some document ∧
      reply.session = session.putErrors uri result.errors ∧ reply.Reports uri document result) ∨
    (session.formatted? step = none ∧ reply.Idle session) := by
  cases step with
  | opened | changed | closed => cases hformatting
  | format uri options =>
      have hanswer := eq_ok_of_mapError hstep
      cases hdocument : session.document? uri with
      | none =>
          rw [answerFormat_of_none hdocument] at hanswer
          cases hanswer
          exact .inr ⟨formatted?_of_closed rfl hdocument, idle_edits hdocument⟩
      | some document =>
          rw [answerFormat_of_some hdocument] at hanswer
          obtain ⟨result, hresult, rfl⟩ := exists_of_map_eq_ok hanswer
          exact .inl ⟨uri, document, result, formatted?_of_open rfl hdocument hresult, hdocument,
            rfl, reports_formatReply session uri document result⟩
  | tidy arguments =>
      have htidy : session.tidy arguments = .ok reply := hstep
      cases haddress : address? arguments with
      | none =>
          have hnone : session.formatted? (.tidy arguments) = none := by
            simp [formatted?, Step.formats?, haddress]
          rcases tidy_of_none haddress with hnothing | hrefused
          · rw [hnothing] at htidy
            cases htidy
            exact .inr ⟨hnone, idle_nothingOpen session⟩
          · rw [hrefused] at htidy
            cases htidy
      | some uri =>
          have hformats : (Step.tidy arguments).formats? =
              some (uri, Options.ofEditor? (target arguments).2) := by
            rw [Step.formats?, haddress]
            rfl
          rw [tidy_of_some haddress] at htidy
          have hat := eq_ok_of_mapError htidy
          cases hdocument : session.document? uri with
          | none =>
              rw [tidyAt_of_none hdocument] at hat
              cases hat
              exact .inr ⟨formatted?_of_closed hformats hdocument, idle_nothingOpen session⟩
          | some document =>
              rw [tidyAt_of_some hdocument] at hat
              obtain ⟨result, hresult, rfl⟩ := exists_of_map_eq_ok hat
              exact .inl ⟨uri, document, result, formatted?_of_open hformats hdocument hresult,
                hdocument, rfl, reports_tidyReply session uri document result⟩

theorem Guarded.step [Machine] {session : Session} (h : session.Guarded) {step : Step}
    {reply : Reply} (hstep : session.step step = .ok reply) : reply.session.Guarded := by
  have hformatting : step.IsFormatting → reply.session.Guarded := by
    intro hformatting
    rcases reply_cases hstep hformatting with
      ⟨uri, document, result, _, hopen, hsession, _⟩ | ⟨_, hidle⟩
    · rw [hsession]
      exact h.putErrors hopen _
    · rw [hidle.session_eq]
      exact h
  cases step with
  | opened uri language version text =>
      cases hstep
      exact h.putDocument uri _
  | changed uri version changes =>
      cases hstep
      exact h.change uri version changes
  | closed uri =>
      cases hstep
      exact h.close uri
  | format uri options => exact hformatting trivial
  | tidy arguments => exact hformatting trivial

theorem Reachable.guarded [Machine] {session : Session} (h : Reachable session) :
    session.Guarded := by
  induction h with
  | start => exact fun uri _ => rfl
  | step _ hstep ih => exact ih.step hstep

/-! ### Runs -/

/-- The session after a step. A step that cannot be done leaves it as it is. -/
def next [Machine] (session : Session) (step : Step) : Session :=
  match session.step step with
  | .ok reply => reply.session
  | .error _ => session

/-- The session after some steps from the start. -/
def after [Machine] (steps : List Step) : Session :=
  steps.foldl next {}

theorem Reachable.next [Machine] {session : Session} (h : Reachable session) (step : Step) :
    Reachable (session.next step) := by
  rw [Session.next]
  split
  next reply hstep => exact h.step hstep
  next => exact h

theorem reachable_after [Machine] (steps : List Step) : Reachable (after steps) := by
  have hrun : ∀ session, Reachable session → Reachable (steps.foldl Session.next session) := by
    induction steps with
    | nil => exact fun session h => h
    | cons step steps ih => exact fun session h => ih _ (h.next step)
  exact hrun {} .start

/-- **No report is stale or missing.** After any steps, only open documents have errors in the
table. A formatting step that is done leaves all documents as they are. It shows an error exactly if
its document is open and this very formatting has errors, and then it shows these; the edits it
gives or applies are that of the whole document, if this very formatting succeeded and changed the
text, and else there are none; and its errors are the ones then kept of its document. -/
theorem reports_own_outcome [Machine] (steps : List Step) :
    (∀ entry ∈ (after steps).errors, ∃ document, (after steps).document? entry.1 = some document) ∧
    ∀ step reply, step.IsFormatting → (after steps).step step = .ok reply →
      reply.session.documents = (after steps).documents ∧
      (∀ notice, notice ∈ reply.notices ∧ notice.level = .error ↔
        ∃ uri document result, (after steps).formatted? step = some (uri, document, result) ∧
          result.errors ≠ [] ∧ notice = failed result.errors) ∧
      (∀ edit, edit ∈ reply.handed ↔
        ∃ uri document result, (after steps).formatted? step = some (uri, document, result) ∧
          result.succeeded = true ∧ result.changed = true ∧
          edit = ⟨document.lines.length, result.text⟩) ∧
      ∀ uri document result, (after steps).formatted? step = some (uri, document, result) →
        reply.session.errorsOf uri = result.errors := by
  have hguarded := (reachable_after steps).guarded
  refine ⟨fun entry hentry => ?_, fun step reply hformatting hstep => ?_⟩
  · refine Option.ne_none_iff_exists'.mp fun hclosed => ?_
    have hother := List.lookup_eq_none_iff.mp (hguarded entry.1 hclosed) entry hentry
    simp at hother
  rcases reply_cases hstep hformatting with
    ⟨uri, document, result, hformatted, hopen, hsession, hreports⟩ |
      ⟨hnone, hsession, hhanded, hnotices⟩
  · simp only [hformatted, Option.some.injEq, Prod.mk.injEq]
    refine ⟨by rw [hsession]; rfl, fun notice => ?_, fun edit => ?_, ?_⟩
    · rw [hreports.notices]
      constructor
      · rintro ⟨hne, rfl⟩
        exact ⟨uri, document, result, ⟨rfl, rfl, rfl⟩, hne, rfl⟩
      · rintro ⟨_, _, _, ⟨rfl, rfl, rfl⟩, hne, rfl⟩
        exact ⟨hne, rfl⟩
    · rw [hreports.handed, mem_editsOf]
      constructor
      · rintro ⟨hsucceeded, hchanged, rfl⟩
        exact ⟨uri, document, result, ⟨rfl, rfl, rfl⟩, hsucceeded, hchanged, rfl⟩
      · rintro ⟨_, _, _, ⟨rfl, rfl, rfl⟩, hsucceeded, hchanged, rfl⟩
        exact ⟨hsucceeded, hchanged, rfl⟩
    · rintro _ _ _ ⟨rfl, rfl, rfl⟩
      exact hreports.errors
  · -- Only a document that is not open could have errors here, and it has none.
    have hquiet : ∀ notice ∈ reply.notices, notice.level ≠ .error := by
      intro notice hnotice hlevel
      obtain ⟨uri, hclosed, herrors⟩ := hnotices notice hnotice hlevel
      rw [errorsOf, hguarded uri hclosed] at herrors
      exact herrors rfl
    simp only [hnone, hhanded, reduceCtorEq, false_and, exists_false, List.not_mem_nil, iff_false,
      not_and]
    exact ⟨by rw [hsession], hquiet, fun _ => trivial, nofun⟩

/-- A text that could not be formatted is opened again as code. -/
def reopening : List Step :=
  [.opened "a".toList "text".toList 1 "a=1".toList, .format "a".toList none,
    .opened "a".toList "javascript".toList 2 "a=1".toList]

/-- The errors of the first formatting are still kept when the second one is asked for, which shows
none and drops them. -/
theorem reports_own_outcome_reopened :
    (after reopening).errorsOf "a".toList ≠ [] ∧
      ∃ reply, (after reopening).step (.format "a".toList none) = .ok reply ∧
        (∀ notice ∈ reply.notices, notice.level ≠ .error) ∧
        ⟨1, "a = 1".toList⟩ ∈ reply.handed ∧ reply.session.errorsOf "a".toList = [] := by
  obtain ⟨reply, hstep⟩ : ∃ reply, (after reopening).step (.format "a".toList none) = .ok reply :=
    (Option.isSome_iff_exists.mp (by decide +kernel)).imp fun _ => Line.eq_ok_of_toOption
  obtain ⟨⟨uri, document, result⟩, hformatted, hview⟩ : ∃ formatted,
      (after reopening).formatted? (.format "a".toList none) = some formatted ∧
        (formatted.1, formatted.2.1.lines.length, formatted.2.2.text, formatted.2.2.errors,
          formatted.2.2.changed) = ("a".toList, 1, "a = 1".toList, [], true) :=
    Option.map_eq_some_iff.mp (by decide +kernel)
  simp only [Prod.mk.injEq] at hview
  obtain ⟨rfl, hlines, htext, herrors, hchanged⟩ := hview
  obtain ⟨_, hreplies⟩ := reports_own_outcome reopening
  obtain ⟨_, hnotices, hhanded, hkept⟩ := hreplies (.format "a".toList none) reply trivial hstep
  refine ⟨by decide +kernel, reply, hstep, fun notice hnotice hlevel => ?_, ?_, ?_⟩
  · obtain ⟨_, _, other, hother, hne, _⟩ := (hnotices notice).mp ⟨hnotice, hlevel⟩
    obtain rfl : result = other := congrArg (·.2.2) (Option.some.inj (hformatted.symm.trans hother))
    exact hne herrors
  · refine (hhanded _).mpr ⟨_, document, result, hformatted, ?_, hchanged, ?_⟩
    · rw [Outcome.succeeded, herrors]
      rfl
    · rw [hlines, htext]
  · rw [hkept _ _ _ hformatted, herrors]

end SourceLayout.Session
