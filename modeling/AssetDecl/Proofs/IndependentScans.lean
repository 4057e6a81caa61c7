import AssetDecl.Proofs.EndedScans

/-!
# Independent scans

Two current scans of different types that have found no blocks of one key can end in either order:
the same declarations are stored with the same sources and origins, the same files have been
visited, and the same blocks wait, those of the scan that ended last behind the others
(`System.endScan_comm`).
-/

namespace AssetDecl

/-- The source of the declaration that is stored under a key, and its origin. -/
def Store.provenance? (s : Store) (key : DeclKey) : Option (BlockSource × Option DeclType) :=
  (s.stored? key).map fun st => (st.declaration.block, st.origin)

theorem Findings.SortedBy.origin_eq {b : Bindings} {t : DeclType} {f : Findings}
    (h : f.SortedBy b t) : ∀ p ∈ f.waiting, p.origin = t := by
  induction h with
  | nothing => exact fun p hp => absurd hp List.not_mem_nil
  | addFile _ file blocks ih => exact origin_addFile ih file blocks

namespace Catalogue

variable {cat : Catalogue} {f : Findings} {r : StartedScan}

/-! ## One scan -/

/-- The last block of a key is stored. Without one, what comes from a former scan of the type goes
and everything else stays. -/
theorem provenance?_withFound (h : cat.Sound) (hf : f.Resolved cat.bindings)
    (hkeeps : cat.bindings.KeepsBlocks) (t : DeclType) (previous : FileSet) (key : DeclKey) :
    (cat.withFound t previous f).store.provenance? key =
      ((f.lastBlock? key).map fun block => (block, some t)).or
        ((cat.store.provenance? key).filter fun p => p.2 ≠ some t) := by
  unfold Store.provenance?
  cases hlast : f.lastBlock? key with
  | some block =>
    obtain ⟨st, hstored, rfl, horigin, -⟩ :
        ∃ st, (cat.withFound t previous f).store.stored? key = some st ∧
          st.declaration.block = block ∧ st.origin = some t ∧
          ∀ old, cat.store.stored? key = some old → st.handle = old.handle :=
      stored?_withFound_of_some h hf hkeeps hlast
    rw [hstored, Option.map_some, horigin]
    rfl
  | none =>
    rw [stored?_withFound_of_none h hf hkeeps hlast, Option.map_none, Option.none_or]
    cases cat.store.stored? key with
    | none => rfl
    | some st =>
      rw [Option.filter_some, Option.map_some, Option.filter_some]
      split <;> rfl

theorem waiting_withFound (h : cat.Sound) (hf : f.Resolved cat.bindings)
    (hkeeps : cat.bindings.KeepsBlocks) (t : DeclType) (previous : FileSet) :
    (cat.withFound t previous f).waiting = cat.waiting.filter (·.origin ≠ t) ++ f.waiting := by
  show cat.waiting.filter (·.origin ≠ t) ++ (cat.installFound t f).left ++ f.waiting = _
  rw [(installFound_of_resolved (t := t) h hf hkeeps).1, List.append_nil]

/-- The catalogue `after` is what `cat` becomes by the findings of a scan that were sorted by its
bindings. -/
structure Receives (cat : Catalogue) (r : StartedScan) (f : Findings) (after : Catalogue) :
    Prop where
  bindings : after.bindings = cat.bindings
  sound : after.Sound
  settled : after.Settled
  provenance : ∀ key, after.store.provenance? key =
    ((f.lastBlock? key).map fun block => (block, some r.scan.defaultType)).or
      ((cat.store.provenance? key).filter fun p => p.2 ≠ some r.scan.defaultType)
  visited : ∀ t, after.visitedOf t =
    if r.scan.defaultType = t then { files := f.files, diff := .between r.previous f.files }
    else cat.visitedOf t
  waiting : after.waiting = cat.waiting.filter (·.origin ≠ r.scan.defaultType) ++ f.waiting

theorem receives_endScan (h : cat.Sound) (hs : cat.Settled) (hkeeps : cat.bindings.KeepsBlocks)
    (hcurrent : cat.isCurrent r = true) (hf : f.Resolved cat.bindings) :
    cat.Receives r f (cat.endScan r (some f)).2 := by
  have hleft := (installFound_of_resolved (t := r.scan.defaultType) h hf hkeeps).1
  have hsound := h.withFound r.scan.defaultType r.previous f
  have hsettled : (cat.withFound r.scan.defaultType r.previous f).Settled :=
    settled_withFound hs hf hleft
  obtain ⟨tickets, superseded, hafter⟩ := sameButTickets_endScan hcurrent f
  rw [installScan_of_resolved h hs hf hkeeps] at hafter
  rw [hafter]
  exact {
    bindings := rfl
    sound := ⟨hsound.bindings, hsound.store⟩
    settled := hsettled
    provenance := provenance?_withFound h hf hkeeps _ r.previous
    visited := visitedOf_withFound cat r.previous f
    waiting := waiting_withFound h hf hkeeps _ r.previous }

/-! ## Two scans -/

/-- What a catalogue becomes by the findings of two scans of different types. -/
theorem Receives.trans {mid after : Catalogue} {r₁ r₂ : StartedScan} {f₁ f₂ : Findings}
    (h₁ : cat.Receives r₁ f₁ mid) (h₂ : mid.Receives r₂ f₂ after)
    (hne : r₁.scan.defaultType ≠ r₂.scan.defaultType)
    (hf₁ : f₁.SortedBy cat.bindings r₁.scan.defaultType) :
    (∀ key, after.store.provenance? key =
      ((f₂.lastBlock? key).map fun block => (block, some r₂.scan.defaultType)).or
        (((f₁.lastBlock? key).map fun block => (block, some r₁.scan.defaultType)).or
          ((cat.store.provenance? key).filter fun p =>
            p.2 ≠ some r₁.scan.defaultType ∧ p.2 ≠ some r₂.scan.defaultType))) ∧
    (∀ t, after.visitedOf t =
      if r₂.scan.defaultType = t then { files := f₂.files, diff := .between r₂.previous f₂.files }
      else if r₁.scan.defaultType = t then
        { files := f₁.files, diff := .between r₁.previous f₁.files }
      else cat.visitedOf t) ∧
    after.waiting =
      (cat.waiting.filter fun p =>
        p.origin ≠ r₁.scan.defaultType ∧ p.origin ≠ r₂.scan.defaultType) ++
        f₁.waiting ++ f₂.waiting := by
  refine ⟨?_, ?_, ?_⟩
  · intro key
    rw [h₂.provenance key, h₁.provenance key]
    cases f₁.lastBlock? key with
    | some block => simp [hne, Option.filter_some]
    | none => simp [Option.filter_filter]
  · intro t
    rw [h₂.visited t, h₁.visited t]
  · have hkept : f₁.waiting.filter (·.origin ≠ r₂.scan.defaultType) = f₁.waiting := by
      rw [List.filter_eq_self]
      intro p hp
      rw [hf₁.origin_eq p hp]
      exact decide_eq_true hne
    rw [h₂.waiting, h₁.waiting, List.filter_append, hkept, List.filter_filter]
    simp only [Bool.decide_and, Bool.and_comm]

end Catalogue

namespace System

/-- Two current scans end whose findings are sorted by the bindings as they are and have no key in
common. In either order every key has the same source and origin, which for the keys of the findings
are the last block and the scan that found it, the same files have been visited with the same
differences, and behind the blocks of other origins the same blocks wait. -/
theorem endScan_comm {s : System} {r₁ r₂ : StartedScan} {f₁ f₂ : Findings} (hs : s.Reachable)
    (hquiet : s.owed = 0) (hkeeps : s.catalogue.bindings.KeepsBlocks)
    (hcurrent₁ : s.catalogue.isCurrent r₁) (hcurrent₂ : s.catalogue.isCurrent r₂)
    (hne : r₁.scan.defaultType ≠ r₂.scan.defaultType)
    (hf₁ : f₁.SortedBy s.catalogue.bindings r₁.scan.defaultType)
    (hf₂ : f₂.SortedBy s.catalogue.bindings r₂.scan.defaultType)
    (hapart : ∀ key, ¬(f₁.sees key ∧ f₂.sees key)) :
    let after₁₂ := ((s.catalogue.endScan r₁ (some f₁)).2.endScan r₂ (some f₂)).2
    let after₂₁ := ((s.catalogue.endScan r₂ (some f₂)).2.endScan r₁ (some f₁)).2
    let others := s.catalogue.waiting.filter fun p =>
      p.origin ≠ r₁.scan.defaultType ∧ p.origin ≠ r₂.scan.defaultType
    (∀ key, after₁₂.store.provenance? key = after₂₁.store.provenance? key) ∧
    (∀ key block, f₁.lastBlock? key = some block →
      after₁₂.store.provenance? key = some (block, some r₁.scan.defaultType)) ∧
    (∀ key block, f₂.lastBlock? key = some block →
      after₁₂.store.provenance? key = some (block, some r₂.scan.defaultType)) ∧
    (∀ t, after₁₂.visitedOf t = after₂₁.visitedOf t) ∧
    after₁₂.waiting = others ++ f₁.waiting ++ f₂.waiting ∧
    after₂₁.waiting = others ++ f₂.waiting ++ f₁.waiting := by
  intro after₁₂ after₂₁ others
  have hsound := hs.sound.catalogue
  have hresolved₁ := hf₁.resolved hsound.bindings
  have hresolved₂ := hf₂.resolved hsound.bindings
  -- Either scan can come first, and the other one is current then as before.
  have hone := Catalogue.receives_endScan hsound (hs.sound.settled hquiet) hkeeps hcurrent₁
    hresolved₁
  have htwo := Catalogue.receives_endScan hsound (hs.sound.settled hquiet) hkeeps hcurrent₂
    hresolved₂
  have hone' := Catalogue.receives_endScan (r := r₂) (f := f₂) hone.sound hone.settled
    (hone.bindings ▸ hkeeps) ((Catalogue.isCurrent_endScan _ _ _ _).trans hcurrent₂)
    (hone.bindings ▸ hresolved₂)
  have htwo' := Catalogue.receives_endScan (r := r₁) (f := f₁) htwo.sound htwo.settled
    (htwo.bindings ▸ hkeeps) ((Catalogue.isCurrent_endScan _ _ _ _).trans hcurrent₁)
    (htwo.bindings ▸ hresolved₁)
  obtain ⟨hprovenance₁₂, hvisited₁₂, hwaiting₁₂⟩ := hone.trans hone' hne hf₁
  obtain ⟨hprovenance₂₁, hvisited₂₁, hwaiting₂₁⟩ := htwo.trans htwo' hne.symm hf₂
  have hother : ∀ key block, f₁.lastBlock? key = some block → f₂.lastBlock? key = none := by
    intro key block hlast₁
    have hapart := hapart key
    rw [Findings.sees_eq, Findings.sees_eq, hlast₁] at hapart
    simpa using hapart
  refine ⟨?_, ?_, ?_, ?_, hwaiting₁₂, ?_⟩
  · intro key
    rw [hprovenance₁₂ key, hprovenance₂₁ key]
    cases hlast₁ : f₁.lastBlock? key with
    | none => simp [and_comm]
    | some block =>
      rw [hother key block hlast₁]
      rfl
  · intro key block hlast₁
    rw [hprovenance₁₂ key, hlast₁, hother key block hlast₁]
    rfl
  · intro key block hlast₂
    rw [hprovenance₁₂ key, hlast₂]
    rfl
  · intro t
    rw [hvisited₁₂ t, hvisited₂₁ t]
    by_cases h₁ : r₁.scan.defaultType = t
    · rw [if_pos h₁, if_neg fun h₂ => hne (h₁.trans h₂.symm), if_pos h₁]
    · rw [if_neg h₁, if_neg h₁]
  · refine hwaiting₂₁.trans ?_
    simp only [others, and_comm]

/-- The moss has moved from the files of one type to those of the other. If its old type is scanned
first it is removed and made anew, otherwise it is kept: its source and origin are the same. -/
theorem endScan_comm_moss :
    let t₁ : DeclType := ⟨"material"⟩
    let t₂ : DeclType := ⟨"skin"⟩
    let old := FileAccess.ofTexts [("m/a.mtr", "material moss { old } Sound noise {}")]
    let history : List Event :=
      [.bind "material" (.plain t₁), .retry, .addFolder t₁ "m" "mtr"] ++
        List.replicate 4 (Event.advance 0 old) ++ [Event.addFolder t₂ "s" "skin", Event.rescan]
    let s := history.foldl perform {}
    let r₁ : StartedScan :=
      ⟨3, (s.catalogue.visitedOf t₁).files,
        { defaultType := t₁, limits := {}, folders := [⟨"m/", ".mtr", t₁⟩] }⟩
    let r₂ : StartedScan :=
      ⟨4, ∅, { defaultType := t₂, limits := {}, folders := [⟨"s/", ".skin", t₂⟩] }⟩
    let moss : BlockSource := { keyword := "Material", name := "Moss", contents := " new " }
    let f₁ := Findings.addFile s.catalogue.bindings t₁ {} ⟨"m/b.mtr", ⟨"/"⟩, "base", ⟨9, 0⟩⟩
      [{ name := "gravel" }, { keyword := "sound", name := "noise" }]
    let f₂ := Findings.addFile s.catalogue.bindings t₂ {} ⟨"s/a.skin", ⟨"/"⟩, "base", ⟨9, 0⟩⟩
      [moss, { name := "fur" }]
    let after₁₂ := ((s.catalogue.endScan r₁ (some f₁)).2.endScan r₂ (some f₂)).2
    let after₂₁ := ((s.catalogue.endScan r₂ (some f₂)).2.endScan r₁ (some f₁)).2
    let others := s.catalogue.waiting.filter fun p => p.origin ≠ t₁ ∧ p.origin ≠ t₂
    s.Reachable ∧ s.owed = 0 ∧ s.catalogue.bindings.KeepsBlocks ∧ s.catalogue.isCurrent r₁ ∧
      s.catalogue.isCurrent r₂ ∧ t₁ ≠ t₂ ∧ f₁.SortedBy s.catalogue.bindings t₁ ∧
      f₂.SortedBy s.catalogue.bindings t₂ ∧ (∀ key, ¬(f₁.sees key ∧ f₂.sees key)) ∧
      (s.catalogue.store.stored? (.of t₁ "moss")).map Stored.origin = some (some t₁) ∧
      (∀ key, after₁₂.store.provenance? key = after₂₁.store.provenance? key) ∧
      after₁₂.store.provenance? (.of t₁ "moss") = some (moss, some t₂) ∧
      (∀ t, after₁₂.visitedOf t = after₂₁.visitedOf t) ∧
      after₁₂.waiting = others ++ f₁.waiting ++ f₂.waiting ∧
      after₂₁.waiting = others ++ f₂.waiting ++ f₁.waiting := by
  intro t₁ t₂ old history s r₁ r₂ moss f₁ f₂ after₁₂ after₂₁ others
  have hreachable : s.Reachable := (Reachable.start {}).run history
  have hquiet : s.owed = 0 := by decide +kernel
  have hcurrent₁ : s.catalogue.isCurrent r₁ := by decide +kernel
  have hcurrent₂ : s.catalogue.isCurrent r₂ := by decide +kernel
  have hne : t₁ ≠ t₂ := by decide
  have hsorted₁ : f₁.SortedBy s.catalogue.bindings t₁ := .addFile .nothing _ _
  have hsorted₂ : f₂.SortedBy s.catalogue.bindings t₂ := .addFile .nothing _ _
  have hkeeps : s.catalogue.bindings.KeepsBlocks := by
    intro t c hc name block
    have hbyType : s.catalogue.bindings.byType = Std.ExtTreeMap.insert ∅ t₁ (.plain t₁) := by
      unfold s
      rw [bindings_run]
      rfl
    unfold Bindings.typeCreator? at hc
    rw [hbyType, Std.ExtTreeMap.getElem?_insert] at hc
    split at hc
    · obtain rfl := Option.some.inj hc
      rfl
    · simp at hc
  have hapart : ∀ key, ¬(f₁.sees key ∧ f₂.sees key) := by
    have hkeys : ∀ p ∈ f₁.assigned, ∀ q ∈ f₂.assigned,
        DeclKey.of p.1 p.2.name ≠ DeclKey.of q.1 q.2.name := by decide +kernel
    rintro key ⟨h₁, h₂⟩
    obtain ⟨p, hp, rfl⟩ := Findings.sees_iff.mp h₁
    obtain ⟨q, hq, hkey⟩ := Findings.sees_iff.mp h₂
    exact hkeys p hp q hq hkey.symm
  have hmoss : (s.catalogue.store.stored? (.of t₁ "moss")).map Stored.origin = some (some t₁) := by
    decide +kernel
  have hlast : f₂.lastBlock? (.of t₁ "moss") = some moss := by decide +kernel
  obtain ⟨hprovenance, -, hnew, hvisited, hwaiting⟩ :=
    endScan_comm hreachable hquiet hkeeps hcurrent₁ hcurrent₂ hne hsorted₁ hsorted₂ hapart
  exact ⟨hreachable, hquiet, hkeeps, hcurrent₁, hcurrent₂, hne, hsorted₁, hsorted₂, hapart, hmoss,
    hprovenance, hnew _ _ hlast, hvisited, hwaiting⟩

end System

end AssetDecl
