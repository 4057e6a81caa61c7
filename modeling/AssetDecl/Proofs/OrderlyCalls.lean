import AssetDecl.Proofs.InterleavedCalls

/-!
# Orderly calls of a task

Use of a task is orderly when only threads that are no workers reset it, each while no other such
thread makes a call. Then no move is careless (`Ordered.not_careless`), a worker knows itself and
its calls return at once, and a reset that is past its wait is the only call there is
(`Ordered.alone_idle`).
-/

namespace AssetDecl

namespace CallPoint

/-- Points of a call that is no reset and not past its first step. -/
def First : CallPoint → Prop
  | starting | asking | checking false => True
  | _ => False

theorem not_first_of_reset {point : CallPoint} (h : point.kind = .reset) : ¬ point.First := by
  cases point with
  | checking resets => cases resets <;> simp_all [kind, First]
  | _ => simp_all [kind, First]

end CallPoint

namespace SharedTask

variable {s : SharedTask} {caller : ThreadId}

/-! ## Orderly use -/

/-- Resets are called by threads that are no workers, and overlap no other call of such a thread. -/
def Orderly (s : SharedTask) : Move → Prop
  | .call caller kind =>
    (kind = .reset → caller < s.firstWorker ∧ ∀ d < s.firstWorker, s.calls d = none) ∧
    (caller < s.firstWorker →
      ∀ d < s.firstWorker, (s.calls d).map CallPoint.kind ≠ some .reset)
  | .step _ | .enter _ | .exit _ _ => True

instance (s : SharedTask) : (m : Move) → Decidable (s.Orderly m)
  | .call _ _ => inferInstanceAs (Decidable (_ ∧ _))
  | .step _ | .enter _ | .exit _ _ => inferInstanceAs (Decidable True)

/-- Moves one after the other, each of them orderly. -/
def OrderlyRun (s : SharedTask) : List Move → Prop
  | [] => True
  | m :: moves => s.Orderly m ∧ (s.perform m).OrderlyRun moves

def decidableOrderlyRun (s : SharedTask) : (moves : List Move) → Decidable (s.OrderlyRun moves)
  | [] => inferInstanceAs (Decidable True)
  | m :: moves =>
    have := (s.perform m).decidableOrderlyRun moves
    inferInstanceAs (Decidable (_ ∧ _))

instance (s : SharedTask) (moves : List Move) : Decidable (s.OrderlyRun moves) :=
  s.decidableOrderlyRun moves

/-! ## Calls beside each other -/

@[simp] theorem calls_withCall_self {x : Option CallPoint} {t : Task} {notes : List TaskNote} :
    (s.withCall caller x t notes).calls caller = x :=
  Function.update_self ..

theorem calls_withCall_of_ne {x : Option CallPoint} {t : Task} {notes : List TaskNote}
    {d : ThreadId} (h : d ≠ caller) : (s.withCall caller x t notes).calls d = s.calls d :=
  Function.update_of_ne h ..

structure Ordered (s : SharedTask) : Prop extends s.Guarded where
  /-- Nobody outside makes a call beside a reset. -/
  exclusive : ∀ c point d other, s.calls c = some point → point.kind = .reset →
    d < s.firstWorker → s.calls d = some other → c = d
  /-- A worker is at the first step of its call at most. -/
  workers : ∀ w point, s.firstWorker ≤ w → s.calls w = some point →
    s.task.workers[w]? = some .alive ∧ point.First
  knows : ∀ w, s.task.workers[w]? = some .alive → s.task.known = some w
  forgets : ∀ c panicked, s.calls c = some (.forgetting panicked) → s.task.state = .idle

theorem ordered_fresh (name : String) (threads : Nat) : (fresh name threads).Ordered where
  toGuarded := guarded_fresh name threads
  exclusive _ _ _ _ hc := by simp [fresh] at hc
  workers _ _ _ hc := by simp [fresh] at hc
  knows _ hw := by simp [fresh] at hw
  forgets _ _ hc := by simp [fresh] at hc

theorem Ordered.outside (h : s.Ordered) {point : CallPoint} (hcall : s.calls caller = some point)
    (hpoint : ¬ point.First) : caller < s.firstWorker := by
  by_contra hworker
  exact hpoint (h.workers caller point (Nat.not_lt.1 hworker) hcall).2

theorem Ordered.none_live (h : s.Ordered)
    (hstate : s.task.state = .idle ∨ s.task.state = .finished) (w : ThreadId) :
    ¬ s.task.Live w := by
  have htracks := h.tracks
  unfold Task.Tracks at htracks
  rcases hstate with hstate | hstate <;> rw [hstate] at htracks <;> exact htracks w

/-- Beside a reset past its wait there is no other call. -/
theorem Ordered.alone_idle (h : s.Ordered) {point : CallPoint}
    (hcall : s.calls caller = some point) (hkind : point.kind = .reset)
    (hstate : s.task.state = .idle ∨ s.task.state = .finished) {d : ThreadId} (hne : d ≠ caller) :
    s.calls d = none := by
  cases hd : s.calls d with
  | none => rfl
  | some other =>
    by_cases houtside : d < s.firstWorker
    · exact absurd (h.exclusive caller point d other hcall hkind houtside hd) hne.symm
    · have halive := (h.workers d other (Nat.not_lt.1 houtside) hd).1
      exact absurd (.inr halive) (h.none_live hstate d)

/-- A call that is no reset is not beside a reset past its wait. -/
theorem Ordered.no_reset (h : s.Ordered) {point : CallPoint} (hcall : s.calls caller = some point)
    (hkind : point.kind ≠ .reset) (hstate : s.task.state = .idle ∨ s.task.state = .finished)
    {d : ThreadId} {other : CallPoint} (hd : s.calls d = some other) : other.kind ≠ .reset := by
  intro hreset
  have hne : caller ≠ d := by
    rintro rfl
    exact hkind (Option.some.inj (hcall.symm.trans hd) ▸ hreset)
  exact absurd (hcall.symm.trans (h.alone_idle hd hreset hstate hne)) (by simp)

theorem Ordered.not_careless (h : s.Ordered) {m : Move} (hm : s.Orderly m) : ¬ s.Careless m := by
  intro hcareless
  cases m with
  | call caller kind =>
    have hcaller := (hm.1 hcareless.1).1
    exact absurd (h.numbered caller _ hcareless.2) (Nat.not_le.2 hcaller)
  | step caller =>
    obtain ⟨hstate, hcall, d, panicked, hd⟩ := hcareless
    exact h.no_reset hcall (by simp [CallPoint.kind]) (.inl hstate) hd rfl
  | enter worker => exact hcareless
  | exit worker panicked => exact hcareless

theorem Ordered.withCall (h : s.Ordered) {x : Option CallPoint} {t : Task} {notes : List TaskNote}
    (guarded : (s.withCall caller x t notes).Guarded)
    (exclusive : ∀ point, x = some point →
      (point.kind = .reset → ∀ d < s.firstWorker, d ≠ caller → s.calls d = none) ∧
      (caller < s.firstWorker →
        ∀ d other, d ≠ caller → s.calls d = some other → other.kind ≠ .reset))
    (own : ∀ point, x = some point →
      (s.firstWorker ≤ caller → t.workers[caller]? = some .alive ∧ point.First) ∧
      ∀ panicked, point = .forgetting panicked → t.state = .idle)
    (alive : ∀ w : ThreadId, s.task.workers[w]? = some .alive → t.workers[w]? = some .alive)
    (knows : ∀ w : ThreadId, t.workers[w]? = some .alive → t.known = some w)
    (forgets : ∀ d panicked, d ≠ caller → s.calls d = some (.forgetting panicked) →
      t.state = .idle) :
    (s.withCall caller x t notes).Ordered where
  toGuarded := guarded
  exclusive c point d other hc hkind hd hother := by
    revert hd
    refine forall_withCall (P := fun d other => d < s.firstWorker → c = d) ?_ ?_ d other hother
    · intro d other hdc hother hd
      revert hkind
      refine forall_withCall (P := fun c point => point.kind = .reset → c = d) ?_ ?_ c point hc
      · exact fun c point _ hc hkind => h.exclusive c point d other hc hkind hd hother
      · intro point hx hkind
        have hnone := (exclusive point hx).1 hkind d hd hdc
        exact absurd (hother.symm.trans hnone) (by simp)
    · intro other hx hcaller
      revert hkind
      refine forall_withCall (P := fun c point => point.kind = .reset → c = caller) ?_ ?_ c point hc
      · exact fun c point hcc hc hkind =>
          absurd hkind ((exclusive other hx).2 hcaller c point hcc hc)
      · exact fun _ _ _ => rfl
  workers w point hw hcall := by
    revert hw
    refine forall_withCall (P := fun w point => s.firstWorker ≤ w →
      t.workers[w]? = some .alive ∧ point.First) ?_ ?_ w point hcall
    · intro d other _ hd hworker
      exact ⟨alive d (h.workers d other hworker hd).1, (h.workers d other hworker hd).2⟩
    · exact fun point hx => (own point hx).1
  knows := knows
  forgets c panicked hc := by
    refine forall_withCall (P := fun _ point => point = .forgetting panicked → t.state = .idle)
      ?_ ?_ c _ hc rfl
    · exact fun d other hdc hd hpoint => forgets d panicked hdc (hpoint ▸ hd)
    · exact fun point hx hpoint => (own point hx).2 panicked hpoint

/-- A call that goes on as what it is leaves it to no more calls than before to be beside a
reset. -/
theorem Ordered.goOn (h : s.Ordered) {point : CallPoint} {x : Option CallPoint} {t : Task}
    {notes : List TaskNote} (hcall : s.calls caller = some point)
    (guarded : (s.withCall caller x t notes).Guarded)
    (own : ∀ next, x = some next → next.kind = point.kind ∧ caller < s.firstWorker ∧
      ∀ panicked, next = .forgetting panicked → t.state = .idle)
    (alive : ∀ w : ThreadId, s.task.workers[w]? = some .alive → t.workers[w]? = some .alive)
    (knows : ∀ w : ThreadId, t.workers[w]? = some .alive → t.known = some w)
    (forgets : ∀ d panicked, d ≠ caller → s.calls d = some (.forgetting panicked) →
      t.state = .idle) :
    (s.withCall caller x t notes).Ordered := by
  refine h.withCall guarded (fun next hx => ?_) (fun next hx => ?_) alive knows forgets
  · have hkind := (own next hx).1
    constructor
    · intro hreset d hd hne
      cases hother : s.calls d with
      | none => rfl
      | some other =>
        exact absurd (h.exclusive caller point d other hcall (hkind ▸ hreset) hd hother) hne.symm
    · intro hcaller d other hne hother hreset
      exact hne (h.exclusive d other caller point hother hreset hcaller hcall)
  · exact ⟨fun hworker => absurd (own next hx).2.1 (Nat.not_lt.2 hworker), (own next hx).2.2⟩

theorem Ordered.call (h : s.Ordered) {kind : CallKind} (hm : s.Orderly (.call caller kind)) :
    (s.call caller kind).Ordered := by
  have hguarded : (s.call caller kind).Guarded := h.toGuarded.perform (h.not_careless hm)
  unfold SharedTask.call at hguarded ⊢
  split
  · rename_i hcan
    rw [if_pos hcan] at hguarded
    refine h.withCall hguarded ?_ ?_ (fun _ => id) h.knows
      fun d panicked _ => h.forgets d panicked
    · intro point hx
      obtain rfl := Option.some.inj hx
      rw [kind.kind_entry]
      refine ⟨fun hreset d hd _ => (hm.1 hreset).2 d hd, fun hcaller d other hne hd hreset => ?_⟩
      have houtside := h.outside hd (CallPoint.not_first_of_reset hreset)
      exact hm.2 hcaller d houtside (by simp [hd, hreset])
    · intro point hx
      obtain rfl := Option.some.inj hx
      refine ⟨fun hworker => ?_, fun panicked hpoint => ?_⟩
      · refine ⟨hcan.2.resolve_left (Nat.not_lt.2 hworker), ?_⟩
        cases kind with
        | reset => exact absurd (hm.1 rfl).1 (Nat.not_lt.2 hworker)
        | _ => trivial
      · cases kind <;> simp [CallKind.entry] at hpoint
  · exact h

/-- A step that changes no more than the state. -/
theorem Ordered.turn (h : s.Ordered) {point : CallPoint} {x : Option CallPoint}
    {state : TaskState} {notes : List TaskNote} (hcall : s.calls caller = some point)
    (guarded : (s.withCall caller x { s.task with state } notes).Guarded)
    (own : ∀ next, x = some next → next.kind = point.kind ∧ caller < s.firstWorker ∧
      ∀ panicked, next = .forgetting panicked → state = .idle)
    (hstate : s.task.state = .idle → state = .idle) :
    (s.withCall caller x { s.task with state } notes).Ordered :=
  h.goOn hcall guarded own (fun _ => id) h.knows
    fun d panicked _ hd => hstate (h.forgets d panicked hd)

/-- A step that changes nothing but the call. -/
theorem Ordered.pass (h : s.Ordered) {point next : CallPoint} {notes : List TaskNote}
    (hcall : s.calls caller = some point)
    (guarded : (s.withCall caller (some next) s.task notes).Guarded)
    (hkind : next.kind = point.kind) (hcaller : caller < s.firstWorker)
    (hnext : ∀ panicked, next ≠ .forgetting panicked) :
    (s.withCall caller (some next) s.task notes).Ordered := by
  refine h.turn hcall guarded (fun next' hx => ?_) id
  obtain rfl := Option.some.inj hx
  exact ⟨hkind, hcaller, fun panicked hpoint => absurd hpoint (hnext panicked)⟩

theorem Ordered.ends (h : s.Ordered) {point : CallPoint} {notes : List TaskNote}
    (hcall : s.calls caller = some point)
    (guarded : (s.withCall caller none s.task notes).Guarded) :
    (s.withCall caller none s.task notes).Ordered :=
  h.turn hcall guarded (fun _ hx => absurd hx (by simp)) id

theorem Ordered.spawn (h : s.Ordered) {notes : List TaskNote}
    (hcall : s.calls caller = some .starting) (hstate : s.task.state = .idle)
    (guarded : (s.withCall caller none s.task.spawn notes).Guarded) :
    (s.withCall caller none s.task.spawn notes).Ordered := by
  have hnone : ∀ w : ThreadId, s.task.workers[w]? ≠ some .alive :=
    fun w halive => h.none_live (.inl hstate) w (.inr halive)
  refine h.goOn hcall guarded (fun _ hx => absurd hx (by simp)) ?_ ?_ ?_
  · exact fun w halive => absurd halive (hnone w)
  · intro w halive
    rw [Task.life_spawn] at halive
    split at halive
    · simp at halive
    · exact absurd halive (hnone w)
  · exact fun d panicked _ hd =>
      absurd rfl (h.no_reset hcall (by simp [CallPoint.kind]) (.inl hstate) hd)

theorem Ordered.forgot (h : s.Ordered) {panicked : Bool} {notes : List TaskNote}
    (hcall : s.calls caller = some (.forgetting panicked))
    (guarded : (s.withCall caller none { s.task with known := none } notes).Guarded) :
    (s.withCall caller none { s.task with known := none } notes).Ordered := by
  have hstate : s.task.state = .idle := h.forgets caller panicked hcall
  refine h.goOn hcall guarded (fun _ hx => absurd hx (by simp)) (fun _ => id) ?_ ?_
  · exact fun w halive => absurd (.inr halive) (h.none_live (.inl hstate) w)
  · exact fun _ _ _ _ => hstate

theorem Ordered.step (h : s.Ordered) : (s.step caller).Ordered := by
  have hguarded : (s.step caller).Guarded :=
    h.toGuarded.perform (h.not_careless (m := .step caller) trivial)
  have hsteps := steps_step s caller
  generalize s.step caller = s' at hsteps hguarded ⊢
  cases hsteps with
  | stay => exact h
  | spawn hcall hstate => exact h.spawn hcall hstate hguarded
  | started hcall | answered hcall | ownWait hcall | waitOver hcall => exact h.ends hcall hguarded
  | ownReset hcall hknown =>
    exact absurd (h.known caller hknown) (Nat.not_le.2 (h.resets caller _ hcall rfl))
  | checked hcall hknown =>
    refine h.pass hcall hguarded rfl ?_ nofun
    by_contra hworker
    exact hknown (h.knows caller (h.workers caller _ (Nat.not_lt.1 hworker) hcall).1)
  | took hcall hstate =>
    refine h.turn hcall hguarded (fun next hx => ?_) fun hidle => ?_
    · obtain rfl := Option.some.inj hx
      exact ⟨rfl, h.outside hcall id, nofun⟩
    · exact absurd (hidle.symm.trans hstate) (by simp)
  | resetOver hcall _ => exact h.pass hcall hguarded rfl (h.outside hcall id) nofun
  | exited hcall _ => exact h.pass hcall hguarded rfl (h.outside hcall id) nofun
  | waitStored hcall =>
    refine h.turn hcall hguarded (fun _ hx => absurd hx (by simp)) fun hidle => ?_
    exact absurd (hidle.symm.trans (h.backs caller _ hcall).1) (by simp)
  | resetStored hcall =>
    refine h.turn hcall hguarded (fun next hx => ?_) fun hidle => ?_
    · obtain rfl := Option.some.inj hx
      exact ⟨rfl, h.outside hcall id, nofun⟩
    · exact absurd (hidle.symm.trans (h.backs caller _ hcall).1) (by simp)
  | idled hcall =>
    refine h.turn hcall hguarded (fun next hx => ?_) fun _ => rfl
    obtain rfl := Option.some.inj hx
    exact ⟨rfl, h.outside hcall id, fun _ _ => rfl⟩
  | forgot hcall => exact h.forgot hcall hguarded

theorem Ordered.enter (h : s.Ordered) (worker : ThreadId) : (s.enter worker).Ordered := by
  have hguarded : (s.enter worker).Guarded := h.toGuarded.enter worker
  unfold SharedTask.enter at hguarded ⊢
  split
  · rename_i hspawned
    rw [if_pos hspawned] at hguarded
    have hlive : ∀ w, s.task.Live w → w = worker :=
      fun w hw => h.tracks.live_unique hw (.inl hspawned)
    refine { toGuarded := hguarded, exclusive := h.exclusive,
             workers := fun w point hw hcall => ?_, knows := fun w halive => ?_,
             forgets := h.forgets }
    · have halive := (h.workers w point hw hcall).1
      obtain rfl := hlive w (.inr halive)
      exact absurd (halive.symm.trans hspawned) (by simp)
    · rw [Task.life_enter] at halive
      split at halive
      · rename_i heq
        exact congrArg some heq.symm
      · exact congrArg some (hlive w (.inr halive)).symm
  · exact h

theorem Ordered.exit (h : s.Ordered) (worker : ThreadId) (panicked : Bool) :
    (s.exit worker panicked).Ordered := by
  have hguarded : (s.exit worker panicked).Guarded := h.toGuarded.exit worker panicked
  unfold SharedTask.exit at hguarded ⊢
  split
  · rename_i hexits
    rw [if_pos hexits] at hguarded
    refine { toGuarded := hguarded, exclusive := h.exclusive,
             workers := fun w point hw hcall => ?_, knows := fun w halive => ?_,
             forgets := h.forgets }
    · refine ⟨?_, (h.workers w point hw hcall).2⟩
      rw [Task.life_exit, if_neg]
      · exact (h.workers w point hw hcall).1
      · rintro rfl
        exact absurd (hcall.symm.trans hexits.2) (by simp)
    · rw [Task.life_exit] at halive
      split at halive
      · simp at halive
      · exact h.knows w halive
  · exact h

theorem Ordered.perform {m : Move} (h : s.Ordered) (hm : s.Orderly m) : (s.perform m).Ordered := by
  cases m with
  | call caller kind => exact h.call hm
  | step caller => exact h.step
  | enter worker => exact h.enter worker
  | exit worker panicked => exact h.exit worker panicked

end SharedTask

end AssetDecl
