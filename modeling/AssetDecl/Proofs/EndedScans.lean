import AssetDecl.Proofs.ScanUnderWay

/-!
# Ended scans

When a scan ends, its findings are installed if it is the current one of its type
(`Catalogue.sameButTickets_endScan`); otherwise nothing happens but that its worker ends
(`Catalogue.endScan_of_superseded`). Which scans are current stays as it was, whatever callbacks and
workers do.
-/

namespace AssetDecl

namespace Catalogue

variable {cat cat' : Catalogue} {t : DeclType} {r : StartedScan} {found : Option Findings}
  {f : Findings}

/-! ## Current scans -/

theorem isCurrent_eq (cat : Catalogue) (r : StartedScan) :
    cat.isCurrent r = cat.tickets[r.scan.defaultType]?.any (·.generation == r.generation) := by
  unfold isCurrent
  cases cat.tickets[r.scan.defaultType]? <;> rfl

/-- A new ticket decides which scan of its type is current. -/
theorem isCurrent_insert (cat : Catalogue) (t : DeclType) (ticket : ScanTicket)
    (r : StartedScan) :
    { cat with tickets := cat.tickets.insert t ticket }.isCurrent r =
      if t = r.scan.defaultType then ticket.generation == r.generation else cat.isCurrent r := by
  rw [isCurrent_eq, isCurrent_eq, Std.ExtTreeMap.getElem?_insert]
  simp only [DeclType.compare_eq_eq]
  split <;> rfl

theorem isCurrent_awaitType (h : cat.awaitType t = some cat') (r : StartedScan) :
    cat'.isCurrent r = cat.isCurrent r := by
  unfold awaitType at h
  split at h
  · rw [Option.some.inj h]
  · rename_i ticket hticket
    split at h
    · simp at h
    · obtain rfl := Option.some.inj h
      rw [isCurrent_insert]
      split
      · rename_i ht
        rw [isCurrent_eq, ← ht, hticket]
        rfl
      · rfl

theorem isCurrent_report (cat : Catalogue) (w : Watcher) (r : StartedScan) :
    (cat.report w).2.isCurrent r = cat.isCurrent r := by
  unfold report
  split
  · rfl
  · rename_i t _
    show ((cat.awaitType t).getD cat).isCurrent r = _
    cases hawait : cat.awaitType t with
    | none => rfl
    | some cat' => exact isCurrent_awaitType hawait r

theorem isCurrent_reportAll (cat : Catalogue) (watchers : List Watcher) (r : StartedScan) :
    (cat.reportAll watchers).2.isCurrent r = cat.isCurrent r := by
  unfold reportAll
  refine List.foldlRecOn (motive := fun rc : List String × Catalogue =>
    rc.2.isCurrent r = cat.isCurrent r) _ _ rfl ?_
  intro rc hrc w _
  exact (isCurrent_report rc.2 w r).trans hrc

theorem isCurrent_emit (cat : Catalogue) (changed : TypeSet) (r : StartedScan) :
    (cat.emit changed).2.isCurrent r = cat.isCurrent r := by
  unfold emit
  refine List.foldlRecOn (motive := fun rc : List String × Catalogue =>
    rc.2.isCurrent r = cat.isCurrent r) _ _ rfl ?_
  intro rc hrc t _
  exact (isCurrent_reportAll rc.2 _ r).trans hrc

/-- Installing makes no scan current, nor does it supersede one. -/
theorem isCurrent_completeScan (cat : Catalogue) (r : StartedScan) (f : Findings)
    (r' : StartedScan) : (cat.completeScan r f).1.isCurrent r' = cat.isCurrent r' := by
  unfold completeScan
  split <;> rfl

theorem isCurrent_endScan (cat : Catalogue) (r : StartedScan) (found : Option Findings)
    (r' : StartedScan) : (cat.endScan r found).2.isCurrent r' = cat.isCurrent r' := by
  cases found with
  | none => exact isCurrent_workerExited cat r r' true
  | some f =>
    show (((cat.completeScan r f).1.emit _).2.workerExited r false).isCurrent r' = _
    rw [isCurrent_workerExited, isCurrent_emit, isCurrent_completeScan]

/-- A scan that is started is current, and those of other types stay so. -/
theorem isCurrent_launch_eq (cat : Catalogue) (t : DeclType) (r : StartedScan) :
    (cat.launch t).2.isCurrent r =
      if t = r.scan.defaultType then cat.generation + 1 == r.generation else cat.isCurrent r :=
  isCurrent_insert cat t ⟨t, cat.generation + 1, .running⟩ r

/-- Two current scans of one type are of one generation. -/
theorem generation_eq_of_isCurrent {r r' : StartedScan} (h : cat.isCurrent r = true)
    (h' : cat.isCurrent r' = true) (htype : r.scan.defaultType = r'.scan.defaultType) :
    r.generation = r'.generation := by
  rw [isCurrent_eq, Option.any_eq_true] at h h'
  obtain ⟨ticket, hticket, hgeneration⟩ := h
  obtain ⟨ticket', hticket', hgeneration'⟩ := h'
  rw [htype, hticket'] at hticket
  obtain rfl := Option.some.inj hticket
  exact (beq_iff_eq.mp hgeneration).symm.trans (beq_iff_eq.mp hgeneration')

/-! ## The end of a scan -/

/-- A scan that died has found nothing. -/
theorem sameButTickets_workerExited (cat : Catalogue) (r : StartedScan) (panicked : Bool) :
    cat.SameButTickets (cat.workerExited r panicked) :=
  ⟨_, _, rfl⟩

theorem completeScan_of_current (hcurrent : cat.isCurrent r = true) (f : Findings) :
    cat.completeScan r f = cat.installScan r.scan.defaultType r.previous f := by
  unfold completeScan
  rw [if_pos hcurrent]

theorem sameButTickets_endScan (hcurrent : cat.isCurrent r = true) (f : Findings) :
    (cat.installScan r.scan.defaultType r.previous f).1.SameButTickets
      (cat.endScan r (some f)).2 := by
  rw [← completeScan_of_current hcurrent f]
  exact (sameButTickets_emit _ _).trans (sameButTickets_workerExited _ r false)

theorem completeScan_of_superseded (hcurrent : cat.isCurrent r = false) (f : Findings) :
    cat.completeScan r f = (cat, ∅) := by
  unfold completeScan
  rw [hcurrent]
  rfl

/-- Nobody hears of a superseded scan, and nothing is left of what it has found. -/
theorem endScan_of_superseded (hcurrent : cat.isCurrent r = false) (f : Findings) :
    cat.endScan r (some f) = ([], cat.workerExited r false) := by
  unfold endScan
  dsimp only
  rw [completeScan_of_superseded hcurrent f]
  rfl

theorem sameButTickets_endScan_of_superseded (hcurrent : cat.isCurrent r = false)
    (found : Option Findings) : cat.SameButTickets (cat.endScan r found).2 := by
  cases found with
  | none => exact sameButTickets_workerExited cat r true
  | some f =>
    rw [endScan_of_superseded hcurrent f]
    exact sameButTickets_workerExited cat r false

theorem generation_endScan (cat : Catalogue) (r : StartedScan) (found : Option Findings) :
    (cat.endScan r found).2.generation = cat.generation := by
  cases found with
  | none => rfl
  | some f =>
    cases hcurrent : cat.isCurrent r with
    | false => rw [endScan_of_superseded hcurrent f]; rfl
    | true =>
      obtain ⟨_, _, hsame⟩ := sameButTickets_endScan hcurrent f
      rw [hsame]
      rfl

theorem SameButTickets.visitedOf (h : cat.SameButTickets cat') (t : DeclType) :
    cat'.visitedOf t = cat.visitedOf t := by
  obtain ⟨_, _, rfl⟩ := h
  rfl

end Catalogue

end AssetDecl
