import ForeignBindings.Editor.Server
import ForeignBindings.Proofs.Text.Catalog
import Mathlib.Data.List.Induction

/-! A session of an editor.  However the messages about different documents are mixed, what is kept
of a document and what is answered about it are those of the text that it has at the time.  That a
workspace has the texts of the open documents is a hypothesis on it. -/

namespace ForeignBindings

namespace Editor

/-! ### Messages and texts -/

def Message.uri : Message → Text
  | .opened uri _ | .changed uri _ | .saved uri | .closed uri | .hover uri _ | .symbols uri => uri

/-- The message is one about an open document. -/
def Message.NeedsOpen : Message → Prop
  | .changed _ _ | .saved _ => True
  | _ => False

/-- The message only asks. -/
def Message.IsQuery : Message → Prop
  | .hover _ _ | .symbols _ => True
  | _ => False

/-- The document has been opened, and has not been closed since. -/
def IsOpen (uri : Text) (history : List Message) : Prop :=
  ∃ before text after, history = before ++ .opened uri text :: after ∧ .closed uri ∉ after

/-- Only open documents are changed or saved. -/
inductive Orderly : List Message → Prop
  | nil : Orderly []
  | concat {history : List Message} {m : Message} (h : Orderly history)
      (hopen : m.NeedsOpen → IsOpen m.uri history) : Orderly (history ++ [m])

/-- The text of a document after a message, given the text before it. -/
def textStep (uri : Text) (text : Option Text) : Message → Option Text
  | .opened other new | .changed other new => if uri = other then some new else text
  | .closed other => if uri = other then none else text
  | .saved _ | .hover _ _ | .symbols _ => text

/-- The text that a document has after messages, if it is open. -/
def currentText (uri : Text) (history : List Message) : Option Text :=
  history.foldl (textStep uri) none

theorem currentText_concat (uri : Text) (history : List Message) (m : Message) :
    currentText uri (history ++ [m]) = textStep uri (currentText uri history) m := by
  rw [currentText, List.foldl_append]
  rfl

/-- Messages about other documents do not touch the text of a document. -/
theorem currentText_filter (uri : Text) (history : List Message) :
    currentText uri (history.filter fun m => m.uri = uri) = currentText uri history := by
  rw [currentText, List.foldl_filter, currentText]
  congr
  funext text m
  split
  · rfl
  · rename_i h
    have hne : uri ≠ m.uri := by simpa [eq_comm] using h
    cases m <;> simp_all [textStep, Message.uri]

theorem isOpen_concat {uri : Text} {history : List Message} {m : Message} :
    IsOpen uri (history ++ [m]) ↔
      (∃ text, m = .opened uri text) ∨ IsOpen uri history ∧ m ≠ .closed uri := by
  constructor
  · rintro ⟨before, text, after, hsplit, hclosed⟩
    rcases List.eq_nil_or_concat after with rfl | ⟨after, last, rfl⟩
    · obtain ⟨-, hlast⟩ := List.append_inj' hsplit rfl
      exact .inl ⟨text, List.singleton_inj.mp hlast⟩
    · rw [List.concat_eq_append, ← List.cons_append, ← List.append_assoc] at hsplit
      obtain ⟨rfl, hlast⟩ := List.append_inj' hsplit rfl
      rw [List.singleton_inj.mp hlast]
      simp only [List.concat_eq_append, List.mem_append, List.mem_singleton, not_or] at hclosed
      exact .inr ⟨⟨before, text, after, rfl, hclosed.1⟩, Ne.symm hclosed.2⟩
  · rintro (⟨text, rfl⟩ | ⟨⟨before, text, after, rfl, hclosed⟩, hm⟩)
    · exact ⟨history, text, [], rfl, List.not_mem_nil⟩
    · exact ⟨before, text, after ++ [m], by simp, by simp [hclosed, Ne.symm hm]⟩

theorem Orderly.of_concat {history : List Message} {m : Message} (h : Orderly (history ++ [m])) :
    Orderly history ∧ (m.NeedsOpen → IsOpen m.uri history) := by
  generalize hmessages : history ++ [m] = messages at h
  cases h with
  | nil => simp at hmessages
  | concat h hopen =>
    obtain ⟨rfl, hm⟩ := List.append_inj' hmessages rfl
    rw [List.singleton_inj.mp hm]
    exact ⟨h, hopen⟩

theorem Orderly.of_append {history later : List Message} (h : Orderly (history ++ later)) :
    Orderly history := by
  induction later using List.reverseRecOn with
  | nil => rwa [List.append_nil] at h
  | append_singleton later m ih =>
    rw [← List.append_assoc] at h
    exact ih h.of_concat.1

/-- The workspace that has taken in messages has, of each document that is open after them, the text
that it has; of other documents it may have any text. -/
def TracksTexts (workspace : List Message → Workspace) : Prop :=
  ∀ history uri text, currentText uri history = some text → workspace history uri = some text

/-- In orderly messages a document has a text exactly while it is open. -/
theorem Orderly.isOpen_iff {history : List Message} (h : Orderly history) (uri : Text) :
    IsOpen uri history ↔ (currentText uri history).isSome = true := by
  induction h with
  | nil => simp [IsOpen, currentText]
  | @concat history m _ hopen ih =>
    rw [isOpen_concat, currentText_concat, ih]
    cases m with
    | opened other text =>
      by_cases heq : uri = other
      · simp [textStep, heq]
      · simp [textStep, heq, Ne.symm heq]
    | changed other text =>
      by_cases heq : uri = other
      · have hsome := ih.mp (heq ▸ hopen trivial)
        simp [textStep, heq, heq ▸ hsome]
      · simp [textStep, heq]
    | closed other =>
      by_cases heq : uri = other
      · simp [textStep, heq]
      · simp [textStep, heq, Ne.symm heq]
    | saved | hover | symbols => simp [textStep]

/-- The messages about one document are orderly among themselves. -/
theorem Orderly.filter {history : List Message} (h : Orderly history) (uri : Text) :
    Orderly (history.filter fun m => m.uri = uri) := by
  induction h with
  | nil => exact .nil
  | @concat history m hhistory hopen ih =>
    rw [List.filter_append, List.filter_cons, List.filter_nil]
    by_cases hm : m.uri = uri
    · rw [if_pos (by simpa using hm)]
      refine .concat ih fun hneeds => ?_
      rw [ih.isOpen_iff, hm, currentText_filter, ← hm]
      exact (hhistory.isOpen_iff m.uri).mp (hopen hneeds)
    · rw [if_neg (by simpa using hm), List.append_nil]
      exact ih

/-- What a message leads to when its document has the given text after it: news of a text brings the
warnings about it, a close brings none, and a query is answered from an analysis of the text. -/
inductive Responds : Option Text → Message → Reaction → Prop
  | opened (uri text : Text) :
      Responds (some text) (.opened uri text) ⟨[⟨uri, diagnostics uri text⟩], .nothing⟩
  | changed (uri text : Text) :
      Responds (some text) (.changed uri text) ⟨[⟨uri, diagnostics uri text⟩], .nothing⟩
  | saved (uri text : Text) :
      Responds (some text) (.saved uri) ⟨[⟨uri, diagnostics uri text⟩], .nothing⟩
  | closed (uri : Text) : Responds none (.closed uri) ⟨[⟨uri, []⟩], .nothing⟩
  | hover (text : Option Text) (uri : Text) (place : Place) :
      Responds text (.hover uri place)
        ⟨[], .hover (text.bind fun text => (Document.ofSource uri text).hover? place.line)⟩
  | symbols (uri text : Text) :
      Responds (some text) (.symbols uri) ⟨[], .symbols (Document.ofSource uri text).symbols⟩
  | noSymbols (uri : Text) : Responds none (.symbols uri) ⟨[], .nothing⟩

/-! ### Warnings -/

theorem Document.warnings_ofSource (uri text : Text) :
    (Document.ofSource uri text).warnings = diagnostics uri text := by
  simp only [Document.warnings, Document.ofSource, diagnostics, List.flatMap_map]
  rfl

/-! ### What is kept -/

namespace Session

/-- The analyses after more messages, each handled in the workspace that has taken it in. -/
def afterFrom (workspace : List Message → Workspace) (done : List Message) (session : Session) :
    List Message → Session
  | [] => session
  | m :: rest =>
    afterFrom workspace (done ++ [m]) (session.handle (workspace (done ++ [m])) m).1 rest

/-- The analyses after all messages. -/
def after (workspace : List Message → Workspace) (history : List Message) : Session :=
  afterFrom workspace [] [] history

/-- The session keeps what an analysis of each of the texts finds. -/
def Keeps (session : Session) (texts : Text → Option Text) : Prop :=
  ∀ uri, session.lookup uri = (texts uri).map (Document.ofSource uri)

variable {session : Session} {texts : Text → Option Text} {workspace : Workspace}
  {workspaces : List Message → Workspace}

theorem handle_from {m : Message} {text : Text} (hm : m.NeedsOpen)
    (h : workspace m.uri = some text) :
    session.handle workspace m = session.analyze m.uri text := by
  cases m with
  | changed uri _ | saved uri =>
    rw [Message.uri] at h ⊢
    rw [handle, analyzeFrom, h]
  | opened | closed | hover | symbols => exact hm.elim

theorem Keeps.analyze (h : session.Keeps texts) (uri text : Text) :
    (session.analyze uri text).1.Keeps fun other =>
      if other = uri then some text else texts other := by
  intro other
  rw [Session.analyze, Catalog.lookup_insert]
  by_cases heq : other = uri
  · simp [heq]
  · simp [heq, h other]

/-- A message that needs its document open leaves it with a text. -/
theorem exists_textStep {m : Message} (hm : m.NeedsOpen)
    (hopen : (texts m.uri).isSome = true) :
    ∃ text, textStep m.uri (texts m.uri) m = some text ∧
      (fun uri => textStep uri (texts uri) m) =
        fun other => if other = m.uri then some text else texts other := by
  cases m with
  | changed uri text => exact ⟨text, if_pos rfl, rfl⟩
  | saved uri =>
    obtain ⟨text, htext⟩ := Option.isSome_iff_exists.mp hopen
    refine ⟨text, htext, funext fun other => ?_⟩
    rw [textStep]
    split
    · rename_i heq
      rw [heq, htext]
    · rfl
  | opened | closed | hover | symbols => exact hm.elim

theorem Keeps.handle (h : session.Keeps texts) {m : Message}
    (hopen : m.NeedsOpen → (texts m.uri).isSome = true)
    (hworkspace : ∀ text, textStep m.uri (texts m.uri) m = some text →
      workspace m.uri = some text) :
    (session.handle workspace m).1.Keeps fun uri => textStep uri (texts uri) m := by
  by_cases hneeds : m.NeedsOpen
  · obtain ⟨text, htext, htexts⟩ := exists_textStep hneeds (hopen hneeds)
    rw [htexts, handle_from hneeds (hworkspace text htext)]
    exact h.analyze m.uri text
  cases m with
  | opened uri text => exact h.analyze uri text
  | closed uri =>
    intro other
    rw [Session.handle, Catalog.lookup_erase]
    by_cases heq : other = uri
    · simp [heq, textStep]
    · simp [heq, textStep, h other]
  | hover | symbols => exact h
  | changed | saved => exact absurd trivial hneeds

theorem afterFrom_concat (done history : List Message) (m : Message) :
    afterFrom workspaces done session (history ++ [m]) =
      ((afterFrom workspaces done session history).handle
        (workspaces (done ++ history ++ [m])) m).1 := by
  induction history generalizing done session with
  | nil => rw [List.append_nil]; rfl
  | cons first history ih =>
    rw [List.cons_append, afterFrom, ih, afterFrom]
    simp

theorem after_concat (history : List Message) (m : Message) :
    after workspaces (history ++ [m]) =
      ((after workspaces history).handle (workspaces (history ++ [m])) m).1 :=
  afterFrom_concat [] history m

theorem keeps_after (htracks : TracksTexts workspaces) {history : List Message}
    (h : Orderly history) : (after workspaces history).Keeps fun uri => currentText uri history := by
  induction h with
  | nil => exact fun uri => rfl
  | @concat history m hhistory hopen ih =>
    simp only [after_concat, currentText_concat]
    refine ih.handle (fun hm => (hhistory.isOpen_iff m.uri).mp (hopen hm)) fun text htext => ?_
    rw [← currentText_concat] at htext
    exact htracks _ _ _ htext

/-- What is kept of a document does not depend on the messages about others. -/
theorem lookup_after_filter (htracks : TracksTexts workspaces) {history : List Message}
    (h : Orderly history) (uri : Text) :
    (after workspaces (history.filter fun m => m.uri = uri)).lookup uri =
      (after workspaces history).lookup uri := by
  rw [keeps_after htracks (h.filter uri), keeps_after htracks h]
  exact congrArg _ (currentText_filter uri history)

/-! ### What is answered -/

theorem reaction_analyze (session : Session) (uri text : Text) :
    (session.analyze uri text).2 = ⟨[⟨uri, diagnostics uri text⟩], .nothing⟩ := by
  rw [analyze, Document.warnings_ofSource]

theorem Keeps.responds (h : session.Keeps texts) {m : Message}
    (hopen : m.NeedsOpen → (texts m.uri).isSome = true)
    (hworkspace : ∀ text, textStep m.uri (texts m.uri) m = some text →
      workspace m.uri = some text) :
    Responds (textStep m.uri (texts m.uri) m) m (session.handle workspace m).2 := by
  cases m with
  | opened uri text =>
    rw [Message.uri, textStep, if_pos rfl, Session.handle, reaction_analyze]
    exact .opened uri text
  | changed uri text =>
    have htext := hworkspace text (if_pos rfl)
    rw [handle_from (m := .changed uri text) trivial htext, reaction_analyze, Message.uri,
      textStep, if_pos rfl]
    exact .changed uri text
  | saved uri =>
    obtain ⟨text, htext⟩ := Option.isSome_iff_exists.mp (hopen trivial)
    rw [handle_from (m := .saved uri) trivial (hworkspace text htext), reaction_analyze, textStep,
      htext]
    exact .saved uri text
  | closed uri =>
    rw [Message.uri, textStep, if_pos rfl, Session.handle]
    exact .closed uri
  | hover uri place =>
    rw [Message.uri, textStep, Session.handle, h uri, Option.bind_map]
    exact .hover (texts uri) uri place
  | symbols uri =>
    rw [Message.uri, textStep, Session.handle, h uri]
    cases texts uri with
    | none => exact .noSymbols uri
    | some text => exact .symbols uri text

/-- What is answered to a message depends on nothing but what is kept of its document and, if it is
about an open one, the text of this. -/
theorem handle_congr {other : Session} {workspace' : Workspace} {m : Message}
    (h : session.lookup m.uri = other.lookup m.uri)
    (htext : m.NeedsOpen → workspace m.uri = workspace' m.uri) :
    (session.handle workspace m).2 = (other.handle workspace' m).2 := by
  cases m with
  | changed uri _ | saved uri =>
    have htext := htext trivial
    rw [Message.uri] at htext
    rw [handle, handle, analyzeFrom, analyzeFrom, htext]
    split <;> rfl
  | hover uri place =>
    rw [Message.uri] at h
    rw [handle, handle, h]
  | symbols uri =>
    rw [Message.uri] at h
    rw [handle, handle, h]
  | opened | closed => rfl

theorem handle_query {m : Message} (h : m.IsQuery) : (session.handle workspace m).1 = session := by
  cases m with
  | hover | symbols => rfl
  | opened | changed | saved | closed => exact h.elim

/-- At every message of an orderly session, exactly the open documents are kept, each with an
analysis of its current text; the message gets the response that its document's current text calls
for; a query changes nothing; and all is as if there were no messages about other documents. -/
theorem responds_after {workspaces : List Message → Workspace} (htracks : TracksTexts workspaces)
    {messages history later : List Message} {m : Message} (horderly : Orderly messages)
    (hsplit : messages = history ++ m :: later) :
    let next := ((after workspaces history).handle (workspaces (history ++ [m])) m).1
    let reaction := ((after workspaces history).handle (workspaces (history ++ [m])) m).2
    let alone := history.filter fun message => message.uri = m.uri
    (∀ uri, uri ∈ next.names ↔ IsOpen uri (history ++ [m])) ∧
      (∀ uri, next.lookup uri = (currentText uri (history ++ [m])).map (Document.ofSource uri)) ∧
      Responds (currentText m.uri (history ++ [m])) m reaction ∧
      (m.IsQuery → next = after workspaces history) ∧
      (∀ uri, next.lookup uri = (after workspaces
        ((history ++ [m]).filter fun message => message.uri = uri)).lookup uri) ∧
      reaction = ((after workspaces alone).handle (workspaces (alone ++ [m])) m).2 := by
  intro next reaction alone
  have hprefix : Orderly (history ++ [m]) := by
    rw [hsplit, ← List.singleton_append, ← List.append_assoc] at horderly
    exact horderly.of_append
  obtain ⟨hhistory, hneeds⟩ := hprefix.of_concat
  have hopen : m.NeedsOpen → (currentText m.uri history).isSome = true :=
    fun hm => (hhistory.isOpen_iff m.uri).mp (hneeds hm)
  have hnext : next = after workspaces (history ++ [m]) := (after_concat history m).symm
  have halone : currentText m.uri (alone ++ [m]) = currentText m.uri (history ++ [m]) := by
    rw [currentText_concat, currentText_concat, currentText_filter]
  rw [hnext]
  refine ⟨fun uri => ?_, keeps_after htracks hprefix, ?_, ?_, fun uri => ?_, ?_⟩
  · rw [Catalog.mem_names_iff, hprefix.isOpen_iff, keeps_after htracks hprefix, Option.isSome_map]
  · rw [currentText_concat]
    refine (keeps_after htracks hhistory).responds hopen fun text htext => ?_
    rw [← currentText_concat] at htext
    exact htracks _ _ _ htext
  · rw [after_concat]
    exact handle_query
  · exact (lookup_after_filter htracks hprefix uri).symm
  · refine handle_congr (lookup_after_filter htracks hhistory m.uri).symm fun hm => ?_
    obtain ⟨text, htext, -⟩ := @exists_textStep (fun uri => currentText uri history) m hm (hopen hm)
    rw [← currentText_concat] at htext
    rw [htracks _ _ _ htext, htracks _ _ _ (halone.trans htext)]

/-- Saving a document warns about the text that it was changed to, whatever was done to another, in
the workspace that has no texts but those of the open documents. -/
theorem saved_after_change :
    let workspaces : List Message → Workspace := fun history uri => currentText uri history
    let old : Text := "external f: foo = \x22f\x22".toList
    let new : Text := "external g: bar = \x22g\x22".toList
    let history : List Message :=
      [.opened ['a'] old, .opened ['b'] old, .changed ['a'] new, .closed ['b']]
    let handled := (after workspaces history).handle (workspaces (history ++ [.saved ['a']]))
      (.saved ['a'])
    let notice : Notice := ⟨⟨⟨0, 0⟩, ⟨0, 8⟩⟩,
      "g: unresolved type bar treated as unknown".toList, doubtCode⟩
    TracksTexts workspaces ∧ Orderly (history ++ [.saved ['a']]) ∧
      ['a'] ∈ handled.1.names ∧ ['b'] ∉ handled.1.names ∧
      handled.2 = ⟨[⟨['a'], [notice]⟩], .nothing⟩ := by
  intro workspaces old new history handled notice
  have htracks : TracksTexts workspaces := fun _ _ _ => id
  have hopened : Orderly [.opened ['a'] old, .opened ['b'] old] :=
    @Orderly.concat [.opened ['a'] old] _ (@Orderly.concat [] _ .nil False.elim) False.elim
  have hchanged : Orderly [.opened ['a'] old, .opened ['b'] old, .changed ['a'] new] :=
    @Orderly.concat [.opened ['a'] old, .opened ['b'] old] _ hopened
      fun _ => ⟨[], old, [.opened ['b'] old], rfl, by simp⟩
  have hclosed : Orderly history := @Orderly.concat _ (.closed ['b']) hchanged False.elim
  have hopen : IsOpen ['a'] history :=
    ⟨[], old, [.opened ['b'] old, .changed ['a'] new, .closed ['b']], rfl, by simp⟩
  have horderly : Orderly (history ++ [.saved ['a']]) := .concat hclosed fun _ => hopen
  obtain ⟨-, hlookup, hresponds, -⟩ := responds_after htracks horderly rfl
  refine ⟨htracks, horderly, ?_, ?_, ?_⟩
  · rw [Catalog.mem_names_iff, hlookup]
    simp [history, currentText, textStep]
  · rw [Catalog.mem_names_iff, hlookup]
    simp [history, currentText, textStep]
  · have hdiagnostics : diagnostics ['a'] new = [notice] := by decide +kernel
    rw [← hdiagnostics]
    change Responds (some new) (.saved ['a']) handled.2 at hresponds
    generalize handled.2 = reaction at hresponds ⊢
    cases hresponds
    rfl

end Session

end Editor

end ForeignBindings
