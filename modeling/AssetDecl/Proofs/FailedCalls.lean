import AssetDecl.Proofs.QuietScans

/-!
# Failed calls

Binding a keyword that is bound, unbinding one that is not and asking for a declaration of a type
without a creator fail. A call that fails while no scan is in progress runs no callback, and
whatever is done later gives the same results as without it (`System.WithStores.failed_call_unseen`).
Results are sets of what callers may be told, since of several panics that nobody has heard of any
one may be told (`System.Idle.replies_awaitAll_iff`). Two things stay behind when it was a
declaration that was asked for. A store has been opened, which nobody finds out. And the scan of the
type has been waited for, which is found out only if it has panicked and nobody had heard of that
(`System.WithStores.failed_call_hears_panic`).
-/

namespace AssetDecl

namespace System

/-! ## Results -/

/-- What comes of an event. -/
structure Outcome where
  /-- What the caller may be told. -/
  replies : Session.Reply → Prop
  /-- The types whose callbacks are run. -/
  told : TypeSet
  /-- What can be read afterwards, by a callback too. -/
  view : View

namespace WithStores

variable {s s' : WithStores}

def view (s : WithStores) : View :=
  { s.system.view with readings := s.system.catalogue.readings s.opened }

def outcomes (s : WithStores) : List Event → List Outcome
  | [] => []
  | e :: es =>
    ⟨s.found.Replies e, s.found.changes e, (s.perform e).view⟩ :: (s.perform e).outcomes es

/-- The results of some operations: what can be read before them and what comes of each. -/
def results (s : WithStores) (es : List Event) : View × List Outcome :=
  (s.view, s.outcomes es)

theorem Reachable.view_eq (h : s.Reachable) : s.view = s.system.view := by
  unfold view
  rw [h.housed.2.readings_eq]
  rfl

/-- Two systems differ in the stores that have been opened, and in the scans that have been waited
for of those that have ended well. -/
structure Alike (s s' : WithStores) : Prop where
  left : s.Reachable
  right : s'.Reachable
  quiet : s.system.quiet = s'.system.quiet

namespace Alike

theorem view_eq (h : Alike s s') : s.view = s'.view := by
  rw [h.left.view_eq, h.right.view_eq, ← s.system.view_quiet, h.quiet, view_quiet]

theorem quiet_found (h : Alike s s') : s.found.quiet = s'.found.quiet := by
  rw [h.left.found_eq, h.right.found_eq, h.quiet]

theorem replies_eq (h : Alike s s') (e : Event) : s.found.Replies e = s'.found.Replies e := by
  rw [← replies_quiet, h.quiet_found, replies_quiet]

theorem changes_eq (h : Alike s s') (e : Event) : s.found.changes e = s'.found.changes e := by
  rw [← changes_quiet, h.quiet_found, changes_quiet]

theorem perform (h : Alike s s') (e : Event) : Alike (s.perform e) (s'.perform e) := by
  refine ⟨h.left.perform e, h.right.perform e, ?_⟩
  show (s.found.perform e).quiet = (s'.found.perform e).quiet
  rw [← quiet_perform, h.quiet_found, quiet_perform]

/-- Whatever is done to two such systems gives the same results. -/
theorem results_eq (h : Alike s s') (es : List Event) : s.results es = s'.results es := by
  have houtcomes : s.outcomes es = s'.outcomes es := by
    induction es generalizing s s' with
    | nil => rfl
    | cons e es ih =>
      rw [outcomes, outcomes, h.replies_eq, h.changes_eq, (h.perform e).view_eq, ih (h.perform e)]
  rw [results, results, h.view_eq, houtcomes]

end Alike

/-! ## Failed calls -/

/-- A call that fails, as the events that make it up. -/
inductive FailedCall (s : WithStores) : List Event → Prop where
  | bind {keyword : String} {c : Creator} {e : Failure}
    (h : s.found.Replies (.bind keyword c) (.failed e)) : FailedCall s [.bind keyword c]
  | unbind {keyword : String} {order : TableOrder String} {e : Failure}
    (h : s.found.Replies (.unbind keyword order) (.failed e)) :
    FailedCall s [.unbind keyword order]
  /-- A declaration that is asked for is looked up once the scan of its type has ended. -/
  | findOrCreate {t : DeclType} {name : String} {e : Failure}
    (h : (s.perform (.await t)).found.Replies (.findOrCreate t name) (.failed e)) :
    FailedCall s [.await t, .findOrCreate t name]

end WithStores

def Event.waits : Event → Bool
  | .await _ => true
  | _ => false

variable {s : System} {e : Failure}

theorem bind_of_failed {keyword : String} {c : Creator}
    (h : s.Replies (.bind keyword c) (.failed e)) : s.bind keyword c = s := by
  obtain ⟨order, h⟩ := h
  cases hbind : s.catalogue.bindings.bindKeyword keyword c with
  | error _ => rw [bind, hbind]
  | ok bindings =>
    rw [reply, hbind] at h
    exact absurd (ofResult_eq_failed_iff.1 h) (by simp [Except.map])

theorem unbind_of_failed {keyword : String} {order : TableOrder String}
    (h : s.Replies (.unbind keyword order) (.failed e)) : s.unbind keyword order = s := by
  obtain ⟨_, h⟩ := h
  cases hunbind : s.catalogue.unbindType keyword order with
  | error _ => rw [unbind, hunbind]
  | ok cat =>
    rw [reply, hunbind] at h
    exact absurd (ofResult_eq_failed_iff.1 h) (by simp [Except.map])

theorem findOrCreate_of_failed {t : DeclType} {name : String}
    (h : s.Replies (.findOrCreate t name) (.failed e)) : s.findOrCreate t name = s := by
  obtain ⟨order, h⟩ := h
  cases hmade : s.catalogue.findOrCreate t name with
  | error _ => rw [findOrCreate, hmade]
  | ok made =>
    rw [reply, hmade] at h
    simp at h

namespace WithStores

variable {s s' : WithStores}

theorem Alike.trans {s'' : WithStores} (h : Alike s s') (h' : Alike s' s'') : Alike s s'' :=
  ⟨h.left, h'.right, h.quiet.trans h'.quiet⟩

namespace FailedCall

variable {call : List Event}

/-- Nobody has to wait for a call that fails, and no callback is run for it. -/
theorem outcome (hcall : s.FailedCall call) (hs : s.Reachable) (hidle : s.system.Idle) :
    ∀ o ∈ s.outcomes call, ¬ o.replies .wouldBlock ∧ o.told = ∅ := by
  have hreplies : ∀ {s : WithStores}, s.Reachable → s.system.Idle →
      ∀ e, ¬ s.found.Replies e .wouldBlock := by
    intro s hs hidle e
    rw [hs.found_eq]
    exact hidle.not_wouldBlock hs.housed.1 e
  cases hcall with
  | bind _ | unbind _ => exact List.forall_mem_singleton.2 ⟨hreplies hs hidle _, rfl⟩
  | @findOrCreate t name _ _ =>
    have hawaited : (s.perform (.await t)).system.Idle := hidle
    exact List.forall_mem_cons.2 ⟨⟨hreplies hs hidle _, rfl⟩,
      List.forall_mem_singleton.2 ⟨hreplies (hs.perform (.await t)) hawaited _, rfl⟩⟩

/-- A declaration that is not there cannot be made without a creator. -/
theorem of_missing (hs : s.Reachable) (hidle : s.system.Idle) {t : DeclType} {name : String}
    (hfind : s.system.catalogue.find? t name = none)
    (hcreator : s.system.catalogue.bindings.typeCreator? t = none) :
    s.FailedCall [.await t, .findOrCreate t name] := by
  have hended := hidle.not_runs hs.housed.1
  obtain ⟨cat, hawait⟩ := Option.isSome_iff_exists.1 (Catalogue.isSome_awaitType hended t)
  have hagrees := (Catalogue.sameButTickets_awaitType hawait).agrees
  have hmade : cat.findOrCreate t name = .error (.noCreator t.name) := by
    unfold Catalogue.find? at hfind
    rw [Catalogue.findOrCreate, hagrees.store, hfind, hagrees.bindings, hcreator]
  have hawaited : (s.perform (.await t)).found.catalogue = cat := by
    rw [(hs.perform (.await t)).found_eq]
    show (s.found.become (s.found.catalogue.awaitType t)).catalogue = cat
    rw [hs.found_eq, hawait]
    rfl
  have hreply : (s.perform (.await t)).found.reply .listed (.findOrCreate t name) =
      .failed (.noCreator t.name) := by
    rw [reply, hawaited, hmade]
  exact .findOrCreate ⟨.listed, hreply⟩

/-- Apart from waiting, a call that fails opens a store at most. -/
theorem alike (hcall : s.FailedCall call) (hs : s.Reachable) :
    Alike (call.foldl perform s) ((call.filter Event.waits).foldl perform s) := by
  refine ⟨hs.run _, hs.run _, congrArg System.quiet ?_⟩
  cases hcall with
  | bind h => exact (bind_of_failed h).trans hs.found_eq
  | unbind h => exact (unbind_of_failed h).trans hs.found_eq
  | @findOrCreate t name _ h =>
    exact (findOrCreate_of_failed h).trans (hs.perform (.await t)).found_eq

/-- Waiting for a scan that has ended makes no difference unless it has panicked unheard. -/
theorem alike_heard (hcall : s.FailedCall call) (hs : s.Reachable)
    (hheard : ∀ t, .await t ∈ call → ¬ s.system.catalogue.Unheard t) :
    Alike ((call.filter Event.waits).foldl perform s) s := by
  refine ⟨hs.run _, hs, ?_⟩
  cases hcall with
  | bind _ | unbind _ => rfl
  | @findOrCreate t name _ h =>
    show (s.found.perform (.await t)).quiet = _
    rw [hs.found_eq]
    exact quiet_await s.system (hheard t List.mem_cons_self)

end FailedCall

/-- A call that fails while no scan is in progress ends at once and runs no callback. Whatever is
done afterwards gives the same results as without it, or as after a mere wait for the scan of the
type if that has panicked unheard. -/
theorem failed_call_unseen (hs : s.Reachable) (hidle : s.system.Idle) {call : List Event}
    (hcall : s.FailedCall call) :
    (∀ o ∈ s.outcomes call, ¬ o.replies .wouldBlock ∧
      ∀ later : Catalogue, later.emit o.told = ([], later)) ∧
    (∀ es, (call.foldl perform s).results es =
      ((call.filter Event.waits).foldl perform s).results es) ∧
    ((∀ t, .await t ∈ call → ¬ s.system.catalogue.Unheard t) →
      ∀ es, (call.foldl perform s).results es = s.results es) := by
  have halike := hcall.alike hs
  refine ⟨fun o ho => ?_, halike.results_eq, fun hheard => ?_⟩
  · obtain ⟨hended, htold⟩ := hcall.outcome hs hidle o ho
    refine ⟨hended, fun later => ?_⟩
    rw [htold]
    rfl
  · exact (halike.trans (hcall.alike_heard hs hheard)).results_eq

/-- A scan that read nothing has ended. A declaration of its type is asked for and cannot be made,
which nobody finds out. -/
theorem failed_call_unseen_skin :
    let skin : DeclType := ⟨"skin"⟩
    let none : FileAccess := FileAccess.ofTexts []
    let events : List Event :=
      [.addFolder skin "s" "skin", .advance 0 none, .advance 0 none, .leave 0]
    let s : WithStores := events.foldl perform {}
    let call : List Event := [.await skin, .findOrCreate skin "x"]
    s.Reachable ∧ s.system.Idle ∧ s.FailedCall call ∧ ¬ s.system.catalogue.Unheard skin ∧
      ∀ es, (call.foldl perform s).results es = s.results es := by
  intro skin none events s call
  have hs : s.Reachable := (Reachable.start {}).run events
  have hsystem : s.system = events.foldl System.perform {} :=
    Reachable.system_run (.start {}) events
  have hidle : s.system.Idle := by
    rw [hsystem]
    rfl
  have hcall : s.FailedCall call := by
    refine .of_missing hs hidle ?_ ?_ <;>
    · rw [hsystem]
      decide
  have hheard : ¬ s.system.catalogue.Unheard skin := by
    rw [hsystem]
    decide
  refine ⟨hs, hidle, hcall, hheard, (failed_call_unseen hs hidle hcall).2.2 fun t ht => ?_⟩
  have ht : t = skin := by simpa [call] using ht
  exact ht ▸ hheard

/-- The only scan is joined, whatever the order. -/
theorem Reachable.replies_awaitAll (hs : s.Reachable) (t : DeclType)
    (result : Except Failure Unit) (hsingle : s.system.catalogue.tickets.keys = [t])
    (hjoin : (s.system.catalogue.joinCurrent .listed).map Prod.fst = some result) :
    s.found.Replies .awaitAll = (· = .ofResult result) := by
  have horder : ∀ order, s.system.catalogue.currentScans order =
      s.system.catalogue.currentScans .listed := by
    intro order
    unfold Catalogue.currentScans
    rw [hsingle, List.perm_singleton.1 (order.perm [t])]
    rfl
  have hreply : ∀ order, s.found.reply order .awaitAll = .ofResult result := by
    intro order
    rw [hs.found_eq, reply, Catalogue.map_fst_joinCurrent, horder order,
      ← Catalogue.map_fst_joinCurrent, hjoin]
    rfl
  funext told
  refine propext ⟨fun ⟨order, h⟩ => ?_, fun h => ⟨.listed, ?_⟩⟩
  · exact h.symm.trans (hreply order)
  · exact (hreply .listed).trans h.symm

/-- The worker of a scan has panicked, and nobody has waited for it. A declaration of its type is
asked for and cannot be made. Without that call waiting for all scans would have told of the panic,
after it nobody hears of it any more. -/
theorem failed_call_hears_panic :
    let skin : DeclType := ⟨"skin"⟩
    let deadly : FileAccess :=
      { files := fun _ _ _ => [⟨"s/b.skin", ⟨"/"⟩, "base", ⟨9, 0⟩⟩], openFile := fun _ => .crashed }
    let events : List Event := [.addFolder skin "s" "skin", .advance 0 deadly, .advance 0 deadly]
    let s : WithStores := events.foldl perform {}
    let call : List Event := [.await skin, .findOrCreate skin "x"]
    s.Reachable ∧ s.system.Idle ∧ s.FailedCall call ∧
      s.found.Replies .awaitAll = (· = .failed (.panickedWorker "decl-scan-skin")) ∧
      (call.foldl perform s).found.Replies .awaitAll = (· = .done) ∧
      (call.foldl perform s).results [.awaitAll] ≠ s.results [.awaitAll] := by
  intro skin deadly events s call
  have hs : s.Reachable := (Reachable.start {}).run events
  have hsystem : s.system = events.foldl System.perform {} :=
    Reachable.system_run (.start {}) events
  have hidle : s.system.Idle := by
    rw [hsystem]
    rfl
  have hcall : s.FailedCall call := by
    refine .of_missing hs hidle ?_ ?_ <;>
    · rw [hsystem]
      decide
  have htold : s.found.Replies .awaitAll = (· = .failed (.panickedWorker "decl-scan-skin")) := by
    refine hs.replies_awaitAll skin (.error (.panickedWorker "decl-scan-skin")) ?_ ?_ <;>
    · rw [hsystem]
      decide
  have huntold : (call.foldl perform s).found.Replies .awaitAll = (· = .done) := by
    refine (hs.run call).replies_awaitAll skin (.ok ()) ?_ ?_ <;>
    · rw [hs.system_run call, hsystem]
      decide
  refine ⟨hs, hidle, hcall, htold, huntold, fun hresults => ?_⟩
  have houtcomes := congrArg (fun r : View × List Outcome => r.2.map Outcome.replies) hresults
  simp only [results, outcomes, List.map_cons, List.map_nil, htold, huntold] at houtcomes
  have hdone := congrFun (List.cons.inj houtcomes).1 .done
  simp at hdone

end WithStores

end System

end AssetDecl
