import SourceLayout.Editor.Session
import SourceLayout.Proofs.Editor.Rows
import SourceLayout.Proofs.Literal.Mark

/-!
# Documents in step with their text

An editor sends changes in batches. Whatever steps a session has taken, the lines and offsets of an
open document are those of its text, and so the text that changes lead to is told by the text before
them alone, one change after the other, however they are cut into batches.
-/

namespace SourceLayout

/-- The text that a change makes of a text. -/
def Change.onText (t : Text) : Change → Text
  | .whole text => text
  | .ranged start stop text => t.take (t.place start) ++ text ++ t.drop (t.place stop)

namespace Document

theorem inStep_apply (document : Document) (change : Change) : (document.apply change).InStep := by
  cases change with
  | whole text => exact inStep_update ..
  | ranged start stop text => exact inStep_update ..

theorem InStep.text_apply {document : Document} (h : document.InStep) (change : Change) :
    (document.apply change).text = change.onText document.text := by
  cases change with
  | whole text => rfl
  | ranged start stop text =>
      rw [apply, Change.onText, h.offsetAt_eq, h.offsetAt_eq]
      rfl

/-- Every change is seen from the text that the one before it left. -/
theorem InStep.applyAll {document : Document} (h : document.InStep) (changes : List Change) :
    (document.applyAll changes).InStep ∧
      (document.applyAll changes).text = changes.foldl Change.onText document.text := by
  induction changes generalizing document with
  | nil => exact ⟨h, rfl⟩
  | cons change changes ih =>
      rw [List.foldl_cons, ← h.text_apply]
      exact ih (inStep_apply document change)

/-- Documents in step with the same text have the same lines and offsets. -/
theorem InStep.congr {left right : Document} (hleft : left.InStep) (hright : right.InStep)
    (htext : left.text = right.text) :
    left.lines = right.lines ∧ left.offsets = right.offsets := by
  rw [hleft.lines_eq, hleft.offsets_eq, hright.lines_eq, hright.offsets_eq, htext]
  exact ⟨rfl, rfl⟩

end Document

/-! ### Entries -/

section

variable {κ α : Type} [DecidableEq κ] [BEq κ] [LawfulBEq κ]

theorem lookup_putEntry (key : κ) (value : α) (entries : List (κ × α)) :
    (putEntry key value entries).lookup key = some value := by
  induction entries with
  | nil => simp [putEntry]
  | cons entry entries ih =>
      rw [putEntry]
      split
      next hkey => rw [List.lookup_cons_self]
      next hkey =>
          obtain ⟨own, old⟩ := entry
          have hne : (key == own) = false := by simpa using Ne.symm hkey
          rw [List.lookup_cons, hne, ih]

theorem lookup_putEntry_of_ne {key other : κ} (hne : other ≠ key) (value : α)
    (entries : List (κ × α)) :
    (putEntry key value entries).lookup other = entries.lookup other := by
  have hkey : (other == key) = false := by simpa using hne
  induction entries with
  | nil => simp [putEntry, List.lookup_cons, hkey]
  | cons entry entries ih =>
      obtain ⟨own, old⟩ := entry
      rw [putEntry]
      split
      next howner =>
          obtain rfl : own = key := howner
          rw [List.lookup_cons, List.lookup_cons, hkey]
      next => rw [List.lookup_cons, List.lookup_cons, ih]

theorem lookup_filter (key other : κ) (entries : List (κ × α)) :
    (entries.filter (·.1 ≠ key)).lookup other =
      if other = key then none else entries.lookup other := by
  induction entries with
  | nil => simp
  | cons entry entries ih =>
      obtain ⟨own, old⟩ := entry
      by_cases hother : other = own
      · subst hother
        by_cases hown : other = key
        · rw [List.filter_cons_of_neg (by simpa using hown), ih, if_pos hown, if_pos hown]
        · rw [List.filter_cons_of_pos (by simpa using hown), List.lookup_cons_self, if_neg hown,
            List.lookup_cons_self]
      · have hskip : (other == own) = false := by simpa using hother
        rw [List.lookup_cons, hskip, ← ih, List.filter_cons]
        split
        next => rw [List.lookup_cons, hskip]
        next => rfl

end

namespace Session

/-- Every open document is in step with its text. -/
def InStep (session : Session) : Prop :=
  ∀ uri document, session.document? uri = some document → document.InStep

theorem document?_putDocument (session : Session) (uri : Text) (document : Document) :
    (session.putDocument uri document).document? uri = some document :=
  lookup_putEntry uri document session.documents

theorem document?_putDocument_of_ne (session : Session) {uri other : Text} (hne : other ≠ uri)
    (document : Document) :
    (session.putDocument uri document).document? other = session.document? other :=
  lookup_putEntry_of_ne hne document session.documents

theorem InStep.putDocument {session : Session} (h : session.InStep) (uri : Text)
    {document : Document} (hdocument : document.InStep) :
    (session.putDocument uri document).InStep := by
  intro other found hfound
  by_cases hother : other = uri
  · rw [hother, document?_putDocument] at hfound
    cases hfound
    exact hdocument
  · rw [document?_putDocument_of_ne session hother] at hfound
    exact h other found hfound

theorem InStep.close {session : Session} (h : session.InStep) (uri : Text) :
    (session.close uri).InStep := by
  intro other document hdocument
  rw [document?, Session.close, lookup_filter] at hdocument
  split at hdocument
  next => cases hdocument
  next => exact h other document hdocument

/-- The changes of a batch are made in the document, which stays in step. -/
theorem exists_document?_change {session : Session} {uri : Text} {document : Document}
    (hopen : session.document? uri = some document) (hdocument : document.InStep) (version : Int)
    (changes : List Change) :
    ∃ after, (session.change uri version changes).document? uri = some after ∧ after.InStep ∧
      after.text = changes.foldl Change.onText document.text := by
  rw [change, hopen]
  dsimp only
  split
  next hnone =>
      rw [List.isEmpty_iff.mp hnone]
      exact ⟨document, hopen, hdocument, rfl⟩
  next =>
      exact ⟨_, document?_putDocument .., Document.inStep_update ..,
        (hdocument.applyAll changes).2⟩

theorem InStep.change {session : Session} (h : session.InStep) (uri : Text) (version : Int)
    (changes : List Change) : (session.change uri version changes).InStep := by
  rw [Session.change]
  split
  next => exact h
  next document hopen =>
      split
      next => exact h
      next => exact h.putDocument uri (Document.inStep_update ..)

/-! ### Steps -/

/-- Formatting changes no document, only what is known of its errors. -/
theorem documents_of_format [Machine] {session after : Session} {uri : Text}
    {options : Option Options} {outcome : Option Outcome}
    (hformat : session.format uri options = .ok (after, outcome)) :
    after.documents = session.documents := by
  rw [format] at hformat
  split at hformat
  next => cases hformat; rfl
  next document _ =>
      obtain ⟨outcome, _, hafter⟩ := exists_of_bind_eq_ok hformat
      cases hafter
      rfl

theorem documents_of_answerFormat [Machine] {session : Session} {uri : Text}
    {options : Option Options} {reply : Reply}
    (hanswer : session.answerFormat uri options = .ok reply) :
    reply.session.documents = session.documents := by
  obtain ⟨⟨after, outcome⟩, hformat, hreply⟩ := exists_of_bind_eq_ok hanswer
  cases hreply
  exact documents_of_format hformat

theorem documents_of_tidyAt [Machine] {session : Session} {uri : Text} {options : Option Options}
    {reply : Reply} (htidy : session.tidyAt uri options = .ok reply) :
    reply.session.documents = session.documents := by
  obtain ⟨⟨after, outcome⟩, hformat, hreply⟩ := exists_of_bind_eq_ok htidy
  have hdocuments := documents_of_format hformat
  cases outcome with
  | none =>
      cases hreply
      exact hdocuments
  | some outcome =>
      dsimp only at hreply
      split at hreply <;> cases hreply <;> exact hdocuments

theorem documents_of_tidy [Machine] {session : Session} {arguments : List Value} {reply : Reply}
    (htidy : session.tidy arguments = .ok reply) :
    reply.session.documents = session.documents := by
  rw [tidy] at htidy
  split at htidy
  split at htidy
  next =>
      split at htidy
      next => exact documents_of_tidyAt (eq_ok_of_mapError htidy)
      next => cases htidy; rfl
  next => cases htidy
  next => cases htidy
  next => cases htidy; rfl

theorem InStep.of_documents {session after : Session} (h : session.InStep)
    (hdocuments : after.documents = session.documents) : after.InStep := by
  intro uri document hopen
  rw [document?, hdocuments] at hopen
  exact h uri document hopen

theorem InStep.step [Machine] {session : Session} (h : session.InStep) {step : Step} {reply : Reply}
    (hstep : session.step step = .ok reply) : reply.session.InStep := by
  cases step with
  | opened uri language version text =>
      cases hstep
      exact h.putDocument uri (Document.inStep_make ..)
  | changed uri version changes =>
      cases hstep
      exact h.change uri version changes
  | closed uri =>
      cases hstep
      exact h.close uri
  | format uri options =>
      exact h.of_documents (documents_of_answerFormat (eq_ok_of_mapError hstep))
  | tidy arguments => exact h.of_documents (documents_of_tidy hstep)

/-- The sessions that steps lead to from the start. -/
inductive Reachable [Machine] : Session → Prop
  | start : Reachable {}
  | step {session : Session} {step : Step} {reply : Reply} (hsession : Reachable session)
      (hstep : session.step step = .ok reply) : Reachable reply.session

theorem Reachable.inStep [Machine] {session : Session} (h : Reachable session) :
    session.InStep := by
  induction h with
  | start =>
      intro uri document hopen
      cases hopen
  | step _ hstep ih => exact ih.step hstep

/-! ### Batches -/

/-- Batches of changes, each with the version it leads to, sent one after the other. -/
def changeAll (session : Session) (uri : Text) (batches : List (Int × List Change)) : Session :=
  batches.foldl (fun session batch => session.change uri batch.1 batch.2) session

/-- However changes are cut into batches, the text they lead to is that of the changes made one
after the other. -/
theorem exists_document?_changeAll {session : Session} {uri : Text} {document : Document}
    (hopen : session.document? uri = some document) (hdocument : document.InStep)
    (batches : List (Int × List Change)) :
    ∃ after, (session.changeAll uri batches).document? uri = some after ∧ after.InStep ∧
      after.text = (batches.flatMap Prod.snd).foldl Change.onText document.text := by
  induction batches generalizing session document with
  | nil => exact ⟨document, hopen, hdocument, rfl⟩
  | cons batch batches ih =>
      obtain ⟨next, hnext, hstep, htext⟩ :=
        exists_document?_change hopen hdocument batch.1 batch.2
      obtain ⟨after, hafter, hinStep, hlater⟩ := ih hnext hstep
      refine ⟨after, hafter, hinStep, ?_⟩
      rw [hlater, htext, List.flatMap_cons, List.foldl_append]

/-- **Changes are a fold over the text.** After any steps of a session the lines and offsets of an
open document are those of its text. Batches of changes lead to the text, lines and offsets that all
the changes lead to at once, and this is the text of the changes made one after the other, each of
them at the places its positions have in the text that the one before it left. -/
theorem changeAll_eq_change [Machine] {session : Session} (hreachable : Reachable session)
    {uri : Text} {document : Document} (hopen : session.document? uri = some document) :
    document.lines = Document.linesOf document.text ∧
      document.offsets = Document.offsetsOf document.text ∧
      ∀ (batches : List (Int × List Change)) (version : Int),
        ∃ cut whole, (session.changeAll uri batches).document? uri = some cut ∧
          (session.change uri version (batches.flatMap Prod.snd)).document? uri = some whole ∧
          cut.text = whole.text ∧ cut.lines = whole.lines ∧ cut.offsets = whole.offsets ∧
          cut.text = (batches.flatMap Prod.snd).foldl Change.onText document.text := by
  have hdocument := hreachable.inStep uri document hopen
  refine ⟨hdocument.lines_eq, hdocument.offsets_eq, fun batches version => ?_⟩
  obtain ⟨cut, hcut, hcutStep, hcutText⟩ := exists_document?_changeAll hopen hdocument batches
  obtain ⟨whole, hwhole, hwholeStep, hwholeText⟩ :=
    exists_document?_change hopen hdocument version (batches.flatMap Prod.snd)
  have htext : cut.text = whole.text := hcutText.trans hwholeText.symm
  obtain ⟨hlines, hoffsets⟩ := hcutStep.congr hwholeStep htext
  exact ⟨cut, whole, hcut, hwhole, htext, hlines, hoffsets, hcutText⟩

/-- What is seen of an outcome is seen of the one that formatting gives. -/
theorem exists_outcome [Machine] {session : Session} {uri : Text} {options : Option Options}
    {α : Type} {view : Outcome → α} {a : α}
    (h : ((session.format uri options).toOption.bind Prod.snd).map view = some a) :
    ∃ formatted outcome,
      session.format uri options = .ok (formatted, some outcome) ∧ view outcome = a := by
  obtain ⟨outcome, houtcome, hview⟩ := Option.map_eq_some_iff.mp h
  cases hformat : session.format uri options with
  | error failure =>
      rw [hformat] at houtcome
      cases houtcome
  | ok reply =>
      obtain ⟨formatted, result⟩ := reply
      rw [hformat] at houtcome
      obtain rfl : result = some outcome := houtcome
      exact ⟨formatted, outcome, rfl, hview⟩

/-- A session with one document that was just opened. -/
def opening (uri language : Text) (version : Int) (text : Text) : Session :=
  ({} : Session).putDocument uri (.make uri language version text)

theorem reachable_opening [Machine] (uri language : Text) (version : Int) (text : Text) :
    Reachable (opening uri language version text) :=
  @Reachable.step _ {} (.opened uri language version text) _ .start rfl

/-- The second change finds its row only in the text that the first one left. -/
theorem changeAll_eq_change_rows :
    Reachable (opening "a.js".toList "javascript".toList 1 "ab\r\ncd".toList) ∧
      ∃ cut whole,
        ((opening "a.js".toList "javascript".toList 1 "ab\r\ncd".toList).changeAll "a.js".toList
          [(2, [.ranged ⟨0, 1⟩ ⟨0, 1⟩ "x\n".toList]), (3, [.ranged ⟨1, 0⟩ ⟨1, 1⟩ []])]).document?
            "a.js".toList = some cut ∧
        ((opening "a.js".toList "javascript".toList 1 "ab\r\ncd".toList).change "a.js".toList 3
          [.ranged ⟨0, 1⟩ ⟨0, 1⟩ "x\n".toList, .ranged ⟨1, 0⟩ ⟨1, 1⟩ []]).document?
            "a.js".toList = some whole ∧
        cut.text = whole.text ∧ cut.lines = whole.lines ∧ cut.offsets = whole.offsets ∧
        cut.text = "ax\n\r\ncd".toList := by
  have hreachable := reachable_opening "a.js".toList "javascript".toList 1 "ab\r\ncd".toList
  obtain ⟨_, _, hbatches⟩ := changeAll_eq_change hreachable (document?_putDocument ..)
  obtain ⟨cut, whole, hcut, hwhole, htext, hlines, hoffsets, hfold⟩ := hbatches
    [(2, [.ranged ⟨0, 1⟩ ⟨0, 1⟩ "x\n".toList]), (3, [.ranged ⟨1, 0⟩ ⟨1, 1⟩ []])] 3
  exact ⟨hreachable, cut, whole, hcut, hwhole, htext, hlines, hoffsets,
    hfold.trans (by decide +kernel)⟩

end Session

end SourceLayout
