import SourceLayout.Proofs.Editor.Report

/-!
# Documents do not interfere

A step reads and writes what a session knows under one address: the document that is open there and
the errors of its last formatting. So steps at different addresses can be taken in any order, and
however the steps of several documents are mixed, each document is answered as if it were alone.
-/

namespace SourceLayout.Session

/-- The address of the document a step is about. The command may name none. -/
def Step.address? : Step → Option Text
  | .opened uri _ _ _ | .changed uri _ _ | .closed uri | .format uri _ => some uri
  | .tidy arguments => Session.address? arguments

/-- What a reply tells, the session it leads to apart. -/
structure Told where
  answer : Answer
  notices : List Notice
  applied : List (Text × List Edit)

def Reply.told (reply : Reply) : Told :=
  ⟨reply.answer, reply.notices, reply.applied⟩

/-- What is told of a step, or why it cannot be done. -/
def told [Machine] (session : Session) (step : Step) : Except Fault Told :=
  (session.step step).map Reply.told

/-- What is told of the steps at one address among others. -/
def toldAt [Machine] (uri : Text) : Session → List Step → List (Except Fault Told)
  | _, [] => []
  | session, step :: steps =>
      if step.address? = some uri then session.told step :: toldAt uri (session.next step) steps
      else toldAt uri (session.next step) steps

/-- Sessions that know the same under an address. -/
structure Agree (uri : Text) (left right : Session) : Prop where
  document : left.document? uri = right.document? uri
  errors : left.errors.lookup uri = right.errors.lookup uri

namespace Agree

variable {uri : Text} {left right : Session}

theorem refl (uri : Text) (session : Session) : Agree uri session session :=
  ⟨rfl, rfl⟩

theorem symm (h : Agree uri left right) : Agree uri right left :=
  ⟨h.document.symm, h.errors.symm⟩

theorem trans {middle : Session} (h : Agree uri left middle) (h' : Agree uri middle right) :
    Agree uri left right :=
  ⟨h.document.trans h'.document, h.errors.trans h'.errors⟩

theorem errorsOf (h : Agree uri left right) : left.errorsOf uri = right.errorsOf uri := by
  rw [Session.errorsOf, Session.errorsOf, h.errors]

end Agree

/-! ### Changes at one address -/

/-- A change of sessions that neither reads nor writes anything but at one address. -/
structure Local (own : Option Text) (effect : Session → Session) : Prop where
  congr {uri : Text} {left right : Session} :
    Agree uri left right → Agree uri (effect left) (effect right)
  frame {uri : Text} (session : Session) : own ≠ some uri → Agree uri (effect session) session

theorem local_id (own : Option Text) : Local own id where
  congr h := h
  frame session _ := .refl _ session

theorem local_putDocument (own : Text) (document : Document) :
    Local (some own) fun session => session.putDocument own document where
  congr {uri left right} h := by
    refine ⟨?_, h.errors⟩
    by_cases huri : uri = own
    · rw [huri, document?_putDocument, document?_putDocument]
    · rw [document?_putDocument_of_ne left huri, document?_putDocument_of_ne right huri, h.document]
  frame session hne :=
    ⟨document?_putDocument_of_ne session (Ne.symm (mt (congrArg some) hne)) document, rfl⟩

theorem local_putErrors (own : Text) (errors : List String) :
    Local (some own) fun session => session.putErrors own errors where
  congr h := ⟨h.document, by rw [lookup_putErrors, lookup_putErrors, h.errors]⟩
  frame session hne := ⟨rfl, by rw [lookup_putErrors, if_neg (Ne.symm (mt (congrArg some) hne))]⟩

theorem local_close (own : Text) : Local (some own) fun session => session.close own where
  congr {uri left right} h := by
    have hdocument : left.documents.lookup uri = right.documents.lookup uri := h.document
    refine ⟨?_, by rw [close, close, lookup_filter, lookup_filter, h.errors]⟩
    rw [document?, document?, close, close, lookup_filter, lookup_filter, hdocument]
  frame {uri} session hne := by
    have huri : uri ≠ own := Ne.symm (mt (congrArg some) hne)
    refine ⟨?_, by rw [close, lookup_filter, if_neg huri]⟩
    rw [document?, close, lookup_filter, if_neg huri]
    rfl

/-! ### One step -/

def Told.reply (told : Told) (session : Session) : Reply :=
  ⟨session, told.answer, told.notices, told.applied⟩

/-- Replies of two sessions to one step: both refuse it for the same reason, or both tell the same
of it and are changed in the same way, at one address only. -/
inductive RepliesAlike (own : Option Text) (left right : Session) :
    Except Fault Reply → Except Fault Reply → Prop
  | error (fault : Fault) : RepliesAlike own left right (.error fault) (.error fault)
  | ok (told : Told) {effect : Session → Session} (heffect : Local own effect) :
      RepliesAlike own left right (.ok (told.reply (effect left))) (.ok (told.reply (effect right)))

section

variable {left right : Session} {uri : Text}

theorem repliesAlike_format [Machine] (h : Agree uri left right) (options : Option Options) :
    RepliesAlike (some uri) left right (left.step (.format uri options))
      (right.step (.format uri options)) := by
  rw [step, step]
  cases hdocument : left.document? uri with
  | none =>
      rw [answerFormat_of_none hdocument, answerFormat_of_none (h.document ▸ hdocument), h.errorsOf]
      exact .ok ⟨.edits [], report (right.errorsOf uri), []⟩ (local_id _)
  | some document =>
      rw [answerFormat_of_some hdocument, answerFormat_of_some (h.document ▸ hdocument)]
      cases outcome options document with
      | error failure => exact .error _
      | ok result =>
          exact .ok ⟨.edits (editsOf document result), report result.errors, []⟩
            (local_putErrors uri result.errors)

theorem repliesAlike_tidy [Machine] {arguments : List Value}
    (h : ∀ own, address? arguments = some own → Agree own left right) :
    RepliesAlike (address? arguments) left right (left.step (.tidy arguments))
      (right.step (.tidy arguments)) := by
  rw [step, step]
  cases haddress : address? arguments with
  | none =>
      rcases tidy_of_none haddress with hnothing | hrefused
      · rw [hnothing, hnothing]
        exact .ok ⟨.finished false, [⟨.warning, "No open document to beautify"⟩], []⟩ (local_id _)
      · rw [hrefused, hrefused]
        exact .error _
  | some own =>
      have hown := h own haddress
      rw [tidy_of_some haddress, tidy_of_some haddress]
      cases hdocument : left.document? own with
      | none =>
          rw [tidyAt_of_none hdocument, tidyAt_of_none (hown.document ▸ hdocument)]
          exact .ok ⟨.finished false, [⟨.warning, "No open document to beautify"⟩], []⟩ (local_id _)
      | some document =>
          rw [tidyAt_of_some hdocument, tidyAt_of_some (hown.document ▸ hdocument)]
          cases outcome (Options.ofEditor? (target arguments).2) document with
          | error failure => exact .error _
          | ok result =>
              exact .ok (left.tidyReply own document result).told (local_putErrors own result.errors)

/-- Sessions that know the same under the address of a step reply to it alike. -/
theorem repliesAlike_step [Machine] {step : Step}
    (h : ∀ own, step.address? = some own → Agree own left right) :
    RepliesAlike step.address? left right (left.step step) (right.step step) := by
  cases step with
  | opened uri language version text =>
      exact .ok ⟨.done, [], []⟩ (local_putDocument uri (.make uri language version text))
  | changed uri version changes =>
      have hdocument := (h uri rfl).document
      rw [Session.step, Session.step, change, change, hdocument]
      cases right.document? uri with
      | none => exact .ok ⟨.done, [], []⟩ (local_id _)
      | some document =>
          dsimp only
          split
          next => exact .ok ⟨.done, [], []⟩ (local_id _)
          next => exact .ok ⟨.done, [], []⟩ (local_putDocument uri _)
  | closed uri => exact .ok ⟨.done, [], []⟩ (local_close uri)
  | format uri options => exact repliesAlike_format (h uri rfl) options
  | tidy arguments => exact repliesAlike_tidy h

theorem told_congr [Machine] {step : Step}
    (h : ∀ own, step.address? = some own → Agree own left right) :
    left.told step = right.told step := by
  have halike := repliesAlike_step h
  rw [told, told]
  generalize left.step step = reply at halike
  generalize right.step step = reply' at halike
  cases halike with
  | error fault => rfl
  | ok told heffect => rfl

/-- What two sessions know under some address stays the same through a step that is about another
one, or about one under which they know the same too. -/
theorem next_congr [Machine] {step : Step}
    (h : ∀ own, step.address? = some own → Agree own left right)
    (huri : Agree uri left right) : Agree uri (left.next step) (right.next step) := by
  have halike := repliesAlike_step h
  rw [next, next]
  generalize left.step step = reply at halike
  generalize right.step step = reply' at halike
  cases halike with
  | error fault => exact huri
  | ok told heffect => exact heffect.congr huri

theorem next_of_ne [Machine] {step : Step} (hstep : step.address? ≠ some uri) (session : Session) :
    Agree uri (session.next step) session := by
  have halike := @repliesAlike_step session session _ step fun own _ => .refl own session
  rw [next]
  generalize hreply : session.step step = reply at halike
  cases halike with
  | error fault => exact .refl uri session
  | ok told heffect => exact heffect.frame session hstep

/-! ### Any order -/

/-- Among other steps, the steps at an address are told the same as alone. -/
theorem toldAt_filter [Machine] (h : Agree uri left right) (steps : List Step) :
    toldAt uri left steps = toldAt uri right (steps.filter (·.address? = some uri)) ∧
      Agree uri (steps.foldl next left)
        ((steps.filter (·.address? = some uri)).foldl next right) := by
  induction steps generalizing left right with
  | nil => exact ⟨rfl, h⟩
  | cons step steps ih =>
      by_cases hstep : step.address? = some uri
      · have hown : ∀ own, step.address? = some own → Agree own left right := by
          intro own hown
          obtain rfl : uri = own := Option.some.inj (hstep.symm.trans hown)
          exact h
        obtain ⟨htold, hagree⟩ := ih (next_congr hown h)
        rw [List.filter_cons_of_pos (by simpa using hstep), toldAt, toldAt, if_pos hstep,
          if_pos hstep, told_congr hown, htold]
        exact ⟨rfl, hagree⟩
      · rw [List.filter_cons_of_neg (by simpa using hstep), toldAt, if_neg hstep]
        exact ih ((next_of_ne hstep left).trans h)

/-- Steps that are not about the same document. -/
def Step.Apart (first second : Step) : Prop :=
  ∀ uri, first.address? = some uri → second.address? ≠ some uri

theorem Step.Apart.symm {first second : Step} (h : first.Apart second) : second.Apart first :=
  fun uri hsecond hfirst => h uri hfirst hsecond

theorem told_next [Machine] {first second : Step} (h : first.Apart second) (session : Session) :
    (session.next first).told second = session.told second :=
  told_congr fun own hown => next_of_ne (fun hfirst => h own hfirst hown) session

theorem next_comm [Machine] {first second : Step} (h : first.Apart second) (session : Session)
    (uri : Text) :
    Agree uri ((session.next first).next second) ((session.next second).next first) := by
  -- At the address of one step, the other one changes nothing, whether it comes first or last.
  have hlast : ∀ {first second : Step}, first.Apart second → first.address? ≠ some uri →
      Agree uri ((session.next first).next second) ((session.next second).next first) := by
    intro first second hapart hfirst
    have hown : ∀ own, second.address? = some own → Agree own (session.next first) session :=
      fun own hsecond => next_of_ne (fun hfirst => hapart own hfirst hsecond) session
    exact (next_congr hown (next_of_ne hfirst session)).trans (next_of_ne hfirst _).symm
  by_cases hfirst : first.address? = some uri
  · exact (hlast h.symm (h uri hfirst)).symm
  · exact hlast h hfirst

/-- **Documents do not interfere.** In every session, two steps that are not about the same document
are told the same in either order, and lead to sessions that know the same. And whatever steps about
other documents come in between, what is told of the steps about a document, and what is known of it
in the end, depend on these steps alone and on what was known of it before. -/
theorem steps_independent [Machine] (session : Session) :
    (∀ first second : Step, first.Apart second →
      (session.next second).told first = session.told first ∧
        (session.next first).told second = session.told second ∧
        ∀ uri, Agree uri ((session.next first).next second) ((session.next second).next first)) ∧
    ∀ (uri : Text) (other : Session) (steps steps' : List Step), Agree uri session other →
      steps.filter (·.address? = some uri) = steps'.filter (·.address? = some uri) →
      toldAt uri session steps = toldAt uri other steps' ∧
        Agree uri (steps.foldl next session) (steps'.foldl next other) := by
  refine ⟨fun first second h => ⟨told_next h.symm session, told_next h session, next_comm h session⟩,
    fun uri other steps steps' hagree hsteps => ?_⟩
  obtain ⟨htold, hend⟩ := toldAt_filter hagree steps
  obtain ⟨htold', hend'⟩ := toldAt_filter (.refl uri other) steps'
  rw [htold, htold', hsteps]
  rw [hsteps] at hend
  exact ⟨rfl, hend.trans hend'.symm⟩

end

/-- Two documents that are open at once. -/
def twoOpen : Session :=
  after [.opened "a".toList "css".toList 1 "a{}".toList, .opened "b".toList "text".toList 1 []]

/-- The errors of one document and its closing do not touch the other. -/
theorem steps_independent_two :
    (Step.format "a".toList none).Apart (.closed "b".toList) ∧
      (twoOpen.next (.closed "b".toList)).told (.format "a".toList none) =
        twoOpen.told (.format "a".toList none) ∧
      toldAt "a".toList twoOpen
          [.format "b".toList none, .format "a".toList none, .closed "b".toList,
            .tidy [.ofText "a".toList]] =
        toldAt "a".toList twoOpen [.format "a".toList none, .tidy [.ofText "a".toList]] := by
  have hapart : (Step.format "a".toList none).Apart (.closed "b".toList) := by
    intro uri hfirst hsecond
    have hsame := hfirst.trans hsecond.symm
    revert hsame
    decide
  obtain ⟨hcommute, halone⟩ := steps_independent twoOpen
  exact ⟨hapart, (hcommute _ _ hapart).1, (halone _ _ _ _ (.refl _ _) rfl).1⟩

end SourceLayout.Session
