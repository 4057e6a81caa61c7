import AssetDecl.Signal.Labels
import Mathlib.Data.List.Nodup
import Mathlib.Data.List.Range

/-!
# Signals emit snapshots

Callbacks of a signal are programs that subscribe callbacks and end subscriptions, their own among
them (`Script`). The subscriptions of a `SignalSession` are always those made and not ended since,
in the order in which they were made, and an emission runs the callbacks subscribed when it begins
(`emission_snapshot`). The callbacks of labelled signals are such programs (`labelled_emit`).
-/

namespace AssetDecl

/-- What a callback does: it subscribes callbacks and ends subscriptions, going on as the answers
tell, and leaves an environment to the callbacks after it. -/
inductive Script (κ ε : Type) where
  | done (env : ε)
  | connect (callback : κ) (next : Nat → Script κ ε)
  | disconnect (id : Nat) (next : Bool → Script κ ε)

/-- What has happened to a signal. -/
inductive SignalNote (κ : Type) where
  | connected (id : Nat) (callback : κ)
  | disconnected (id : Nat) (found : Bool)
  | called (callback : κ)

/-- A signal, what its callbacks share, and what has happened so far, oldest first. -/
structure SignalSession (κ ε : Type) where
  signal : Signal κ := {}
  env : ε
  notes : List (SignalNote κ) := []

/-- What is done with a signal from outside. -/
inductive SignalUse (κ : Type) where
  | connect (callback : κ)
  | disconnect (id : Nat)
  | emit

namespace SignalSession

variable {κ ε : Type} {s : SignalSession κ ε} {script : κ → ε → Script κ ε}

def fresh (env : ε) : SignalSession κ ε :=
  { env }

def connect (s : SignalSession κ ε) (callback : κ) : Nat × SignalSession κ ε :=
  let (id, signal) := s.signal.connect callback
  (id, { s with signal, notes := s.notes ++ [.connected id callback] })

def disconnect (s : SignalSession κ ε) (id : Nat) : Bool × SignalSession κ ε :=
  let (found, signal) := s.signal.disconnect id
  (found, { s with signal, notes := s.notes ++ [.disconnected id found] })

def follow (s : SignalSession κ ε) : Script κ ε → SignalSession κ ε
  | .done env => { s with env }
  | .connect callback next => (s.connect callback).2.follow (next (s.connect callback).1)
  | .disconnect id next => (s.disconnect id).2.follow (next (s.disconnect id).1)

def note (s : SignalSession κ ε) (n : SignalNote κ) : SignalSession κ ε :=
  { s with notes := s.notes ++ [n] }

def runCallback (script : κ → ε → Script κ ε) (callback : κ) (s : SignalSession κ ε) :
    SignalSession κ ε :=
  (s.note (.called callback)).follow (script callback s.env)

def emit (script : κ → ε → Script κ ε) (s : SignalSession κ ε) : SignalSession κ ε :=
  s.signal.emit (runCallback script) s

def use (script : κ → ε → Script κ ε) (s : SignalSession κ ε) : SignalUse κ → SignalSession κ ε
  | .connect callback => (s.connect callback).2
  | .disconnect id => (s.disconnect id).2
  | .emit => s.emit script

def run (script : κ → ε → Script κ ε) (s : SignalSession κ ε) (uses : List (SignalUse κ)) :
    SignalSession κ ε :=
  uses.foldl (use script) s

/-! ## What the history tells -/

/-- The subscriptions that have been made. -/
def made (notes : List (SignalNote κ)) : List (Nat × κ) :=
  notes.filterMap fun
    | .connected id callback => some (id, callback)
    | _ => none

/-- The subscriptions that have been ended. -/
def ended (notes : List (SignalNote κ)) : List Nat :=
  notes.filterMap fun
    | .disconnected id true => some id
    | _ => none

/-- The callbacks that have been run. -/
def called (notes : List (SignalNote κ)) : List κ :=
  notes.filterMap fun
    | .called callback => some callback
    | _ => none

/-- The subscriptions that have been made and not been ended. -/
def standing (notes : List (SignalNote κ)) : List (Nat × κ) :=
  (made notes).filter (·.1 ∉ ended notes)

section

variable {notes notes' : List (SignalNote κ)}

theorem made_append : made (notes ++ notes') = made notes ++ made notes' :=
  List.filterMap_append

theorem ended_append : ended (notes ++ notes') = ended notes ++ ended notes' :=
  List.filterMap_append

theorem called_append : called (notes ++ notes') = called notes ++ called notes' :=
  List.filterMap_append

/-- What stands is what stood and has not been ended since, and what has been made since and not
been ended. -/
theorem standing_append : standing (notes ++ notes') =
    (standing notes).filter (·.1 ∉ ended notes') ++
      (made notes').filter (·.1 ∉ ended (notes ++ notes')) := by
  rw [standing, made_append, List.filter_append, standing, List.filter_filter, ended_append]
  congr 1
  refine List.filter_congr fun x _ => ?_
  simp [Bool.and_comm]

theorem standing_connected {id : Nat} {callback : κ} (hid : id ∉ ended notes) :
    standing (notes ++ [.connected id callback]) = standing notes ++ [(id, callback)] := by
  have hmade : made [.connected id callback] = [(id, callback)] := rfl
  have hended : ended [.connected id callback] = [] := rfl
  simp [standing_append, ended_append, hmade, hended, hid]

theorem standing_disconnected {id : Nat} :
    standing (notes ++ [.disconnected id true]) = (standing notes).filter (·.1 != id) := by
  have hmade : made [.disconnected (κ := κ) id true] = [] := rfl
  have hended : ended [.disconnected (κ := κ) id true] = [id] := rfl
  rw [standing_append, hmade, hended, List.filter_nil, List.append_nil]
  exact List.filter_congr fun x _ => Bool.eq_iff_iff.2 (by simp)

end

/-- The signal and the answers it has given are what the history says. -/
structure Exact (s : SignalSession κ ε) : Prop where
  /-- Subscriptions are numbered as they are made, and no number is given twice. -/
  numbered : (made s.notes).map Prod.fst = List.range s.signal.nextId
  subscribers : s.signal.subscribers = standing s.notes
  /-- Ending a subscription succeeds if and only if it is there at that time. -/
  answers : ∀ before id found, before ++ [.disconnected id found] <+: s.notes →
    (found = true ↔ id ∈ (standing before).map Prod.fst)

theorem exact_fresh (env : ε) : (fresh env : SignalSession κ ε).Exact where
  numbered := rfl
  subscribers := rfl
  answers _ _ _ h := by simp [fresh] at h

namespace Exact

theorem lt_of_mem_made (h : s.Exact) {x : Nat × κ} (hx : x ∈ made s.notes) :
    x.1 < s.signal.nextId := by
  rw [← List.mem_range, ← h.numbered]
  exact List.mem_map_of_mem hx

/-- What is ended has been made before. -/
theorem lt_of_mem_ended (h : s.Exact) {id : Nat} (hid : id ∈ ended s.notes) :
    id < s.signal.nextId := by
  obtain ⟨n, hn, hid⟩ := List.mem_filterMap.1 hid
  obtain rfl : n = .disconnected id true := by
    match n with
    | .disconnected _ true => simpa using hid
  obtain ⟨before, after, hnotes⟩ := List.mem_iff_append.1 hn
  have hbefore : before ++ [.disconnected id true] <+: s.notes := ⟨after, by simp [hnotes]⟩
  obtain ⟨x, hx, rfl⟩ := List.mem_map.1 ((h.answers before id true hbefore).1 rfl)
  refine h.lt_of_mem_made (x := x) ?_
  rw [hnotes, made_append]
  exact List.mem_append_left _ (List.mem_filter.1 hx).1

theorem nodup (h : s.Exact) : (s.signal.subscribers.map Prod.fst).Nodup := by
  have hmade : ((made s.notes).map Prod.fst).Nodup := h.numbered ▸ List.nodup_range
  rw [h.subscribers]
  exact hmade.sublist (List.filter_sublist.map _)

/-! ## One step -/

theorem answers_concat (h : s.Exact) {n : SignalNote κ}
    (hn : ∀ id found, n = .disconnected id found →
      (found = true ↔ id ∈ (standing s.notes).map Prod.fst))
    (before : List (SignalNote κ)) (id : Nat) (found : Bool)
    (hbefore : before ++ [.disconnected id found] <+: s.notes ++ [n]) :
    found = true ↔ id ∈ (standing before).map Prod.fst := by
  rcases List.prefix_concat_iff.1 hbefore with heq | hbefore
  · obtain ⟨rfl, hlast⟩ := List.append_inj' heq rfl
    exact hn id found (List.singleton_inj.1 hlast).symm
  · exact h.answers before id found hbefore

theorem connect (h : s.Exact) (callback : κ) : (s.connect callback).2.Exact where
  numbered := by
    have hmade : made (s.connect callback).2.notes =
      made s.notes ++ [(s.signal.nextId, callback)] := made_append
    rw [hmade, List.map_append, h.numbered]
    exact List.range_succ.symm
  subscribers := by
    have hfresh : s.signal.nextId ∉ ended s.notes :=
      fun hmem => Nat.lt_irrefl _ (h.lt_of_mem_ended hmem)
    exact (congrArg (· ++ [_]) h.subscribers).trans (standing_connected hfresh).symm
  answers := h.answers_concat nofun

theorem contains_iff (h : s.Exact) (id : Nat) :
    s.signal.contains id = true ↔ id ∈ (standing s.notes).map Prod.fst := by
  rw [← h.subscribers]
  simp [Signal.contains]

theorem disconnect (h : s.Exact) (id : Nat) : (s.disconnect id).2.Exact where
  numbered := by
    have hmade : made (s.disconnect id).2.notes = made s.notes ++ [] := made_append
    rw [hmade, List.append_nil]
    exact h.numbered
  subscribers := by
    change s.signal.subscribers.filter (·.1 != id) =
      standing (s.notes ++ [.disconnected id (s.signal.contains id)])
    cases hfound : s.signal.contains id with
    | true => rw [standing_disconnected, h.subscribers]
    | false =>
      have hnot : id ∉ (standing s.notes).map Prod.fst := by
        rw [← h.contains_iff, hfound]
        simp
      rw [standing_append, h.subscribers, List.filter_eq_self.2]
      · simp [made, ended]
      · intro x hx
        have hne : x.1 ≠ id := fun heq => hnot (heq ▸ List.mem_map_of_mem hx)
        simpa using hne
  answers := h.answers_concat fun id' found heq => by
    obtain ⟨rfl, rfl⟩ := SignalNote.disconnected.inj heq
    exact h.contains_iff _

theorem note_called (h : s.Exact) (callback : κ) : (s.note (.called callback)).Exact where
  numbered := by
    have hmade : made (s.note (.called callback)).notes = made s.notes ++ [] := made_append
    rw [hmade, List.append_nil]
    exact h.numbered
  subscribers := by
    change s.signal.subscribers = standing (s.notes ++ [_])
    rw [standing_append, h.subscribers]
    simp [made, ended]
  answers := h.answers_concat nofun

/-! ## Callbacks and emissions -/

theorem follow (h : s.Exact) (program : Script κ ε) : (s.follow program).Exact := by
  induction program generalizing s with
  | done env => exact ⟨h.numbered, h.subscribers, h.answers⟩
  | connect callback next ih => exact ih _ (h.connect callback)
  | disconnect id next ih => exact ih _ (h.disconnect id)

theorem runCallback (h : s.Exact) (callback : κ) : (runCallback script callback s).Exact :=
  (h.note_called callback).follow _

theorem emit (h : s.Exact) : (s.emit script).Exact :=
  List.foldlRecOn s.signal.callbacks _ h fun _ h callback _ => h.runCallback callback

theorem use (h : s.Exact) (u : SignalUse κ) : (s.use script u).Exact := by
  cases u with
  | connect callback => exact h.connect callback
  | disconnect id => exact h.disconnect id
  | emit => exact h.emit

theorem run (h : s.Exact) (uses : List (SignalUse κ)) : (s.run script uses).Exact :=
  List.foldlRecOn uses _ h fun _ h u _ => h.use u

/-- What is subscribed after some more history, as it follows from what was subscribed before. -/
theorem subscribers_of_append (h : s.Exact) {s' : SignalSession κ ε} (h' : s'.Exact)
    {during : List (SignalNote κ)} (hnotes : s'.notes = s.notes ++ during) :
    s'.signal.subscribers =
      (s.signal.subscribers ++ made during).filter (·.1 ∉ ended during) := by
  have hnumbered := h'.numbered
  rw [hnotes, made_append, List.map_append] at hnumbered
  have hdisjoint := List.disjoint_of_nodup_append (hnumbered ▸ List.nodup_range)
  rw [h'.subscribers, hnotes, standing_append, List.filter_append, h.subscribers, ended_append]
  congr 1
  refine List.filter_congr fun x hx => ?_
  -- what is made now has a number that was not there to be ended
  have hnot : x.1 ∉ ended s.notes := by
    intro hmem
    refine hdisjoint ?_ (List.mem_map_of_mem hx)
    rw [h.numbered, List.mem_range]
    exact h.lt_of_mem_ended hmem
  simp [hnot]

end Exact

/-! ## What an emission runs -/

theorem exists_notes_follow (s : SignalSession κ ε) (program : Script κ ε) :
    ∃ during, (s.follow program).notes = s.notes ++ during ∧ called during = [] := by
  induction program generalizing s with
  | done env => exact ⟨[], (List.append_nil _).symm, rfl⟩
  | connect callback next ih =>
    obtain ⟨during, hnotes, hcalled⟩ := ih _ (s.connect callback).2
    refine ⟨_ :: during, hnotes.trans (List.append_assoc ..), hcalled⟩
  | disconnect id next ih =>
    obtain ⟨during, hnotes, hcalled⟩ := ih _ (s.disconnect id).2
    refine ⟨_ :: during, hnotes.trans (List.append_assoc ..), hcalled⟩

theorem exists_notes_runCallback (script : κ → ε → Script κ ε) (s : SignalSession κ ε)
    (callback : κ) :
    ∃ during, (runCallback script callback s).notes = s.notes ++ during ∧
      called during = [callback] := by
  obtain ⟨during, hnotes, hcalled⟩ :=
    (s.note (.called callback)).exists_notes_follow (script callback s.env)
  refine ⟨.called callback :: during, hnotes.trans (List.append_assoc ..), ?_⟩
  exact congrArg (callback :: ·) hcalled

theorem exists_notes_emit (script : κ → ε → Script κ ε) (s : SignalSession κ ε) :
    ∃ during, (s.emit script).notes = s.notes ++ during ∧
      called during = s.signal.callbacks := by
  unfold emit Signal.emit
  generalize s.signal.callbacks = callbacks
  induction callbacks generalizing s with
  | nil => exact ⟨[], (List.append_nil _).symm, rfl⟩
  | cons callback callbacks ih =>
    obtain ⟨first, hfirst, hcallback⟩ := exists_notes_runCallback script s callback
    obtain ⟨rest, hrest, hcallbacks⟩ := ih (runCallback script callback s)
    refine ⟨first ++ rest, ?_, ?_⟩
    · rw [List.foldl_cons, hrest, hfirst, List.append_assoc]
    · rw [called_append, hcallback, hcallbacks]
      rfl

/-- What has been done with a signal, by callbacks and from outside, and what its next emission and
the end of a subscription would do. -/
structure EmitsSnapshots (script : κ → ε → Script κ ε) (s : SignalSession κ ε) : Prop
    extends s.Exact where
  /-- Numbers of 64 bits suffice for so many subscriptions. -/
  distinct : (made s.notes).length ≤ UInt64.size →
    ((made s.notes).map fun x => UInt64.ofNat x.1).Nodup
  /-- The callbacks subscribed are run in order, each once. What is subscribed afterwards is what
  was subscribed before and what has been connected meanwhile, in order, but for what has been
  disconnected. -/
  snapshot : ∃ during, (s.emit script).notes = s.notes ++ during ∧
    called during = s.signal.subscribers.map Prod.snd ∧
    (s.emit script).signal.subscribers =
      (s.signal.subscribers ++ made during).filter (·.1 ∉ ended during)
  /-- A subscription that is there is found, and no other one is ended with it. -/
  ends : ∀ id, (s.disconnect id).1 = decide (id ∈ s.signal.subscribers.map Prod.fst) ∧
    (s.disconnect id).2.signal.subscribers = s.signal.subscribers.eraseP (·.1 == id)

theorem Exact.distinct (h : s.Exact) (hlength : (made s.notes).length ≤ UInt64.size) :
    ((made s.notes).map fun x => UInt64.ofNat x.1).Nodup := by
  have hnumbers := h.numbered
  have hnext : s.signal.nextId = (made s.notes).length := by
    simpa using (congrArg List.length hnumbers).symm
  have hmap : (made s.notes).map (fun x => UInt64.ofNat x.1) =
      ((made s.notes).map Prod.fst).map UInt64.ofNat := by simp
  rw [hmap, hnumbers]
  refine List.Nodup.map_on (fun a ha b hb heq => ?_) List.nodup_range
  rw [List.mem_range] at ha hb
  have hnat := congrArg UInt64.toNat heq
  have hsize : s.signal.nextId ≤ UInt64.size := hnext ▸ hlength
  rwa [UInt64.toNat_ofNat_of_lt' (by omega), UInt64.toNat_ofNat_of_lt' (by omega)] at hnat

theorem filter_ne_eq_eraseP {subscribers : List (Nat × κ)} (h : (subscribers.map Prod.fst).Nodup)
    (id : Nat) : subscribers.filter (·.1 != id) = subscribers.eraseP (·.1 == id) := by
  induction subscribers with
  | nil => rfl
  | cons x subscribers ih =>
    obtain ⟨hx, hrest⟩ := List.nodup_cons.1 h
    by_cases heq : x.1 = id
    · rw [List.filter_cons_of_neg (by simpa using heq),
        List.eraseP_cons_of_pos (by simpa using heq)]
      refine List.filter_eq_self.2 fun y hy => ?_
      have hne : y.1 ≠ id := fun hid => hx (heq ▸ hid ▸ List.mem_map_of_mem hy)
      simpa using hne
    · rw [List.filter_cons_of_pos (by simpa using heq),
        List.eraseP_cons_of_neg (by simpa using heq), ih hrest]

theorem Exact.ends (h : s.Exact) (id : Nat) :
    (s.disconnect id).1 = decide (id ∈ s.signal.subscribers.map Prod.fst) ∧
    (s.disconnect id).2.signal.subscribers = s.signal.subscribers.eraseP (·.1 == id) := by
  refine ⟨Bool.eq_iff_iff.2 ?_, filter_ne_eq_eraseP h.nodup id⟩
  rw [decide_eq_true_iff, h.subscribers]
  exact h.contains_iff id

/-- Whatever its callbacks do and however it is used, a signal emits snapshots. -/
theorem emission_snapshot (script : κ → ε → Script κ ε) (env : ε) (uses : List (SignalUse κ)) :
    ((fresh env).run script uses).EmitsSnapshots script := by
  have hexact : ((fresh env).run script uses).Exact := (exact_fresh env).run uses
  obtain ⟨during, hnotes, hcalled⟩ :=
    exists_notes_emit script ((fresh env).run script uses)
  have hsnapshot := hexact.subscribers_of_append hexact.emit hnotes
  exact ⟨hexact, hexact.distinct, ⟨during, hnotes, hcalled, hsnapshot⟩, hexact.ends⟩

end SignalSession

/-! ## Labelled signals -/

namespace LabelledSignal

/-- What the callbacks of a labelled signal share: the subscription last made under each label, and
the log. -/
abbrev Shared := Std.ExtTreeMap String Nat × List String

def actionsScript : List LabelAction → Shared → Script LabelCallback Shared
  | [], env => .done env
  | .connect callback :: actions, (lastId, log) =>
    .connect callback fun id => actionsScript actions (lastId.insert callback.label id, log)
  | .disconnect label :: actions, (lastId, log) =>
    match lastId[label]? with
    | none => actionsScript actions (lastId, log)
    | some id => .disconnect id fun found =>
      actionsScript actions (lastId, log ++ [label ++ "-" ++ toString found])

def callbackScript (callback : LabelCallback) (env : Shared) : Script LabelCallback Shared :=
  actionsScript callback.actions (env.1, env.2 ++ [callback.label])

/-- The labelled signal of a session. -/
def ofSession (s : SignalSession LabelCallback Shared) : LabelledSignal :=
  { signal := s.signal, lastId := s.env.1, log := s.env.2 }

theorem ofSession_follow (actions : List LabelAction) (s : SignalSession LabelCallback Shared)
    (env : Shared) :
    ofSession (s.follow (actionsScript actions env)) =
      actions.foldl runAction { signal := s.signal, lastId := env.1, log := env.2 } := by
  induction actions generalizing s env with
  | nil => rfl
  | cons action actions ih =>
    obtain ⟨lastId, log⟩ := env
    cases action with
    | connect callback => exact ih _ _
    | disconnect label =>
      rw [actionsScript, List.foldl_cons, runAction, disconnect]
      cases lastId[label]? with
      | none => exact ih _ _
      | some id => exact ih _ _

theorem ofSession_runCallback (s : SignalSession LabelCallback Shared) (callback : LabelCallback) :
    ofSession (SignalSession.runCallback callbackScript callback s) =
      runCallback callback (ofSession s) :=
  ofSession_follow ..

/-- An emission of a labelled signal is one of a session. -/
theorem labelled_emit (s : SignalSession LabelCallback Shared) :
    ofSession (s.emit callbackScript) = (ofSession s).emit :=
  (List.foldl_hom ofSession fun s callback => (ofSession_runCallback s callback).symm).symm

end LabelledSignal

end AssetDecl
