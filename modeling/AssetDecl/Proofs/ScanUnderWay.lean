import AssetDecl.Proofs.RepeatedScan

/-!
# A scan under way

While a scan runs on files that do not change, keywords may be bound and the waiting blocks be tried
again between any two of its steps. Nothing of that changes which blocks it will have visited in the
end (`System.Scanning`): it is completed with all of them, or dies as it would have done anyway
(`System.Scanning.advance`). Left to itself it ends as if it were run in one go
(`System.exists_advances`).
-/

namespace AssetDecl

theorem Catalogue.isCurrent_workerExited (cat : Catalogue) (r r' : StartedScan) (panicked : Bool) :
    (cat.workerExited r panicked).isCurrent r' = cat.isCurrent r' := by
  unfold isCurrent workerExited
  dsimp only
  rw [Std.ExtTreeMap.getElem?_map]
  cases cat.tickets[r'.scan.defaultType]? with
  | none => rfl
  | some ticket =>
    show ((ticket.workerExited r.generation panicked).generation == r'.generation) = _
    unfold ScanTicket.workerExited
    split <;> rfl

namespace System

variable {access : FileAccess} {total : Option Visits} {r : StartedScan} {v : Visits} {s : System}

/-- The only scan under way is the current one of its type. It has visited `v`, and will have
visited `total` by its end if the files stay as they are; none if it dies. -/
structure Scanning (access : FileAccess) (total : Option Visits) (r : StartedScan) (v : Visits)
    (s : System) : Prop where
  scans : s.scans = [r]
  current : s.catalogue.isCurrent r = true
  gathers : r.scan.Gathers s.catalogue.bindings v
  visits : r.scan.visits access v = total

/-- A keyword is bound, the waiting blocks are tried again, the scan takes a step on these files, or
the worker of a completed scan ends. -/
def Event.Continues (access : FileAccess) : Event → Prop
  | .bind _ _ => True
  | .retry => True
  | .advance _ access' => access' = access
  | .leave _ => True
  | _ => False

theorem Event.Continues.keepsTo {e : Event} (he : e.Continues access) (t : DeclType) :
    e.KeepsTo t := by
  cases e <;> first | exact absurd he id | trivial

/-- Bindings are added only, unless one is taken back. -/
theorem Event.grows_rebind {e : Event} (he : ∀ keyword order, e ≠ .unbind keyword order)
    (b : Bindings) : b.Grows (e.rebind b) := by
  cases e with
  | bind keyword c =>
    unfold Event.rebind
    dsimp only
    cases hb : b.bindKeyword keyword c with
    | error e => exact .refl b
    | ok b' => exact Bindings.grows_bindKeyword hb
  | unbind keyword order => exact absurd rfl (he keyword order)
  | _ => exact .refl b

theorem Event.Continues.grows {e : Event} (he : e.Continues access) (b : Bindings) :
    b.Grows (e.rebind b) :=
  e.grows_rebind (fun keyword order hunbind => by simp [hunbind, Event.Continues] at he) b

theorem Scanning.bind (h : s.Scanning access total r v) (keyword : String) (c : Creator) :
    (s.bind keyword c).Scanning access total r v := by
  unfold System.bind
  split
  · exact h
  · rename_i hb
    exact ⟨h.scans, h.current, h.gathers.grow (Bindings.grows_bindKeyword hb), h.visits⟩

theorem Scanning.retry (h : s.Scanning access total r v) : s.retry.Scanning access total r v := by
  rw [System.retry_eq]
  split
  · exact h
  · exact ⟨h.scans, h.current, h.gathers, h.visits⟩

theorem Scanning.leave (h : s.Scanning access total r v) (index : Nat) :
    (s.leave index).Scanning access total r v := by
  unfold System.leave
  split
  · exact h
  · refine ⟨h.scans, ?_, h.gathers, h.visits⟩
    rw [Catalogue.isCurrent_workerExited]
    exact h.current

theorem advance_of_no_scans (hscans : s.scans = []) (index : Nat) (access : FileAccess) :
    s.advance index access = s := by
  rw [advance_eq]
  rw [hscans]
  rfl

theorem advance_zero {rest : List StartedScan} (hscans : s.scans = r :: rest)
    (access : FileAccess) :
    s.advance 0 access =
      match r.scan.step access s.catalogue.bindings with
      | .running scan => { s with scans := { r with scan } :: rest }
      | .finished found =>
        { s with
          catalogue := (s.catalogue.completeScan r found).1
          scans := rest
          leaving := s.leaving ++ [r] }
      | .crashed => { s with catalogue := s.catalogue.workerExited r true, scans := rest } := by
  rw [advance_eq]
  rw [hscans]
  rfl

/-- No other scan is started meanwhile. -/
theorem scans_of_continues {e : Event} (he : e.Continues access) (hscans : s.scans = []) :
    (s.perform e).scans = [] := by
  cases e with
  | bind keyword c =>
    rw [← hscans]
    exact (Event.Registers.unchanged (e := .bind keyword c) trivial s).2.2
  | retry =>
    rw [← hscans]
    exact (Event.Registers.unchanged (e := .retry) trivial s).2.2
  | advance index access' =>
    show (s.advance index access').scans = []
    rw [advance_of_no_scans hscans, hscans]
  | leave index =>
    show (s.leave index).scans = []
    unfold System.leave
    split <;> exact hscans
  | _ => exact absurd he id

/-- A step leads on, or to the end of the scan: it is completed with all that it was to visit, or it
dies as it was going to. -/
theorem Scanning.advance (h : s.Scanning access total r v) (index : Nat) :
    (∃ r' v', (s.advance index access).Scanning access total r' v' ∧
      (s.advance index access).catalogue = s.catalogue) ∨
    (total = some v ∧ (s.advance index access).scans = [] ∧
      (s.advance index access).catalogue =
        (s.catalogue.installScan r.scan.defaultType r.previous r.scan.found).1) ∨
    (total = none ∧ (s.advance index access).scans = [] ∧
      (s.advance index access).catalogue = s.catalogue.workerExited r true) := by
  cases index with
  | succ index =>
    have hsame : s.advance (index + 1) access = s := by
      rw [System.advance_eq]
      rw [h.scans]
      rfl
    rw [hsame]
    exact .inl ⟨r, v, h, rfl⟩
  | zero =>
    rw [advance_zero h.scans]
    cases hstep : r.scan.step access s.catalogue.bindings with
    | running scan =>
      obtain ⟨v', hgathers, hvisits⟩ := h.gathers.step hstep
      refine .inl ⟨{ r with scan }, v', ⟨rfl, ?_, hgathers, hvisits.trans h.visits⟩, rfl⟩
      rw [← h.current]
      unfold Catalogue.isCurrent
      dsimp only
      rw [Scan.defaultType_step hstep]
    | finished found =>
      refine .inr (.inl ⟨?_, rfl, ?_⟩)
      · rw [← h.visits, Scan.visits_of_finished hstep]
      · dsimp only
        rw [← Scan.found_of_finished hstep, Catalogue.completeScan, if_pos h.current]
    | crashed =>
      refine .inr (.inr ⟨?_, rfl, rfl⟩)
      rw [← h.visits, Scan.visits_of_crashed h.gathers.files hstep]

theorem scanning_addFolder (hscans : s.scans = []) (access : FileAccess) (t : DeclType)
    (folder extension : String) :
    let r := (s.catalogue.addFolder t folder extension).1
    (s.perform (.addFolder t folder extension)).Scanning access (r.scan.visits access {}) r {} := by
  intro r
  refine ⟨?_, Catalogue.isCurrent_launch _ t, ⟨rfl, .nothing _⟩, rfl⟩
  show s.scans ++ [r] = [r]
  rw [hscans, List.nil_append]

/-- The first scan under way will end if it moves on alone: it is completed with what it finds when
it is run in one go, or it dies. -/
theorem exists_advances_zero {rest : List StartedScan} (access : FileAccess)
    (hscans : s.scans = r :: rest) :
    ∃ n r', r'.generation = r.generation ∧
      (List.replicate n (.advance 0 access)).foldl perform s =
        match r.scan.run access s.catalogue.bindings with
        | some f =>
          { s with
            catalogue := (s.catalogue.completeScan r f).1
            scans := rest
            leaving := s.leaving ++ [r'] }
        | none => { s with catalogue := s.catalogue.workerExited r true, scans := rest } := by
  obtain ⟨generation, previous, scan⟩ := r
  generalize hb : s.catalogue.bindings = b
  fun_induction Scan.runUntil access b (fun _ => false) scan generalizing s with
  | case1 scan scan' hstep _ hstop =>
    cases hcurrent : scan'.current <;> simp [hcurrent] at hstop
  | case2 scan scan' hstep _ hstop ih =>
    have hadvance := advance_zero hscans access
    rw [hb, hstep] at hadvance
    obtain ⟨n, r', hgeneration, hended⟩ := ih (s := s.advance 0 access) (by rw [hadvance])
      (by rw [hadvance]; exact hb)
    refine ⟨n + 1, r', hgeneration, ?_⟩
    rw [List.replicate_succ, List.foldl_cons]
    refine hended.trans ?_
    have hcomplete : ∀ f, s.catalogue.completeScan ⟨generation, previous, scan'⟩ f =
        s.catalogue.completeScan ⟨generation, previous, scan⟩ f := by
      intro f
      unfold Catalogue.completeScan Catalogue.isCurrent
      dsimp only
      rw [Scan.defaultType_step hstep]
    rw [hadvance, Scan.run_of_running hstep]
    simp only [hcomplete]
    rfl
  | case3 scan f hstep =>
    have hadvance := advance_zero hscans access
    rw [hb, hstep] at hadvance
    refine ⟨1, _, rfl, hadvance.trans ?_⟩
    rw [Scan.run_of_ended (by simp [hstep]), hstep]
    rfl
  | case4 scan hstep =>
    have hadvance := advance_zero hscans access
    rw [hb, hstep] at hadvance
    refine ⟨1, ⟨generation, previous, scan⟩, rfl, hadvance.trans ?_⟩
    rw [Scan.run_of_ended (by simp [hstep]), hstep]
    rfl

/-- A scan that moves on alone will end, and then has done what running it in one go does. -/
theorem exists_advances (access : FileAccess) (hscans : s.scans = [r]) :
    ∃ n, ((List.replicate n (.advance 0 access)).foldl perform s).scans = [] ∧
      ((List.replicate n (.advance 0 access)).foldl perform s).catalogue.SameButTickets
        (s.catalogue.runScan access r).2 := by
  obtain ⟨n, r', -, hended⟩ := exists_advances_zero access hscans
  refine ⟨n, ?_⟩
  rw [hended]
  cases hrun : r.scan.run access s.catalogue.bindings with
  | none =>
    refine ⟨rfl, ?_⟩
    unfold Catalogue.runScan
    rw [hrun]
    exact .refl _
  | some f => exact ⟨rfl, Catalogue.sameButTickets_runScan hrun⟩

end System

end AssetDecl
