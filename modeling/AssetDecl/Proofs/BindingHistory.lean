import AssetDecl.Proofs.CreatorBinding

/-!
# Histories of bindings

A history is a list of calls that bind and unbind keywords, each of which may fail. Whatever it was,
a keyword has the creator that its own calls leave it (`Bindings.keywordCreator?_run`), and a type
has a creator exactly while some keyword is bound to one that makes it, however many keywords shared
the type in between and in whatever order the table of the keywords is looked through when one is
unbound (`Bindings.creators_run`).
-/

namespace AssetDecl

namespace Bindings

inductive Call where
  | bind (keyword : String) (c : Creator)
  /-- The keywords that are left are looked through in some order. -/
  | unbind (keyword : String) (order : TableOrder String)

/-- How a call ends and what it leaves. A keyword is erased before it is known whether it was
bound. -/
def perform (b : Bindings) : Call → Except Failure Unit × Bindings
  | .bind keyword c =>
    match b.bindKeyword keyword c with
    | .error e => (.error e, b)
    | .ok b' => (.ok (), b')
  | .unbind keyword order =>
    match b.unbindKeyword keyword order with
    | .error e => (.error e, { b with byKeyword := b.byKeyword.erase (Text.foldCase keyword) })
    | .ok (_, b') => (.ok (), b')

/-- The bindings after a history. -/
def run (calls : List Call) : Bindings :=
  calls.foldl (fun b call => (b.perform call).2) {}

/-- What a call makes of the creator of one case-folded keyword: a keyword keeps its creator until
it is unbound. -/
def Call.rebind (key : String) (current : Option Creator) : Call → Option Creator
  | .bind keyword c => if Text.foldCase keyword = key then current.or (some c) else current
  | .unbind keyword _ => if Text.foldCase keyword = key then none else current

theorem Call.rebind_of_not_folded {key : String} (hkey : Text.foldCase key ≠ key)
    (current : Option Creator) (call : Call) : call.rebind key current = current := by
  have hne (keyword : String) : Text.foldCase keyword ≠ key := by
    rintro rfl
    exact hkey (Text.foldCase_foldCase keyword)
  cases call with
  | bind keyword c => exact if_neg (hne keyword)
  | unbind keyword order => exact if_neg (hne keyword)

/-! ## Single calls -/

variable {b : Bindings} {call : Call} {keyword key : String} {c : Creator} {t t' : DeclType}
  {e : Failure}

theorem keywordCreator?_eq (b : Bindings) (keyword : String) :
    b.keywordCreator? keyword = b.byKeyword[Text.foldCase keyword]? := rfl

/-- All that a call can do. -/
inductive Performs (b : Bindings) : Call → Except Failure Unit × Bindings → Prop where
  | bound {keyword : String} {c : Creator} {b' : Bindings}
    (hb : b.bindKeyword keyword c = .ok b') : Performs b (.bind keyword c) (.ok (), b')
  | refused {keyword : String} {c : Creator} (hbound : (b.keywordCreator? keyword).isSome) :
    Performs b (.bind keyword c) (.error (.alreadyBound keyword), b)
  | unbound {keyword : String} {order : TableOrder String} {c : Creator} {b' : Bindings}
    (hb : b.unbindKeyword keyword order = .ok (c, b')) :
    Performs b (.unbind keyword order) (.ok (), b')
  | missing {keyword : String} {order : TableOrder String}
    (hfree : b.keywordCreator? keyword = none) :
    Performs b (.unbind keyword order) (.error (.notBound keyword), b)

theorem erase_of_free (hfree : b.keywordCreator? keyword = none) :
    b.byKeyword.erase (Text.foldCase keyword) = b.byKeyword := by
  apply Std.ExtTreeMap.ext_getElem?
  intro k
  rw [Std.ExtTreeMap.getElem?_erase]
  split
  · rename_i hk
    obtain rfl := Std.LawfulEqOrd.eq_of_compare hk
    exact hfree.symm
  · rfl

theorem performs_perform (b : Bindings) (call : Call) : b.Performs call (b.perform call) := by
  unfold perform
  cases call with
  | bind keyword c =>
    dsimp only
    cases hb : b.bindKeyword keyword c with
    | ok b' => exact .bound hb
    | error e =>
      unfold bindKeyword at hb
      split at hb
      · rename_i hbound
        obtain rfl := Except.error.inj hb
        rw [isBound, Std.ExtTreeMap.contains_eq_isSome_getElem?] at hbound
        exact .refused hbound
      · simp at hb
  | unbind keyword order =>
    dsimp only
    cases hb : b.unbindKeyword keyword order with
    | ok unbound => exact .unbound hb
    | error e =>
      unfold unbindKeyword at hb
      split at hb
      · rename_i hfree
        obtain rfl := Except.error.inj hb
        dsimp only
        rw [erase_of_free hfree]
        exact .missing hfree
      · simp at hb

/-- A call that fails changes nothing. -/
theorem perform_of_error (he : (b.perform call).1 = .error e) : (b.perform call).2 = b := by
  have hperforms := performs_perform b call
  generalize b.perform call = result at *
  cases hperforms with
  | bound hb => simp at he
  | refused hbound => rfl
  | unbound hb => simp at he
  | missing hfree => rfl

theorem byKeyword_perform (b : Bindings) (call : Call) (key : String) :
    (b.perform call).2.byKeyword[key]? = call.rebind key b.byKeyword[key]? := by
  have hperforms := performs_perform b call
  generalize b.perform call = result at *
  cases hperforms with
  | @bound keyword c b' hb =>
    obtain ⟨hfree, rfl⟩ := bindKeyword_eq_ok hb
    rw [keywordCreator?_eq] at hfree
    simp only [Call.rebind, Std.ExtTreeMap.getElem?_insert, Std.LawfulEqOrd.compare_eq_iff_eq]
    split
    · rename_i hkey
      rw [← hkey, hfree, Option.none_or]
    · rfl
  | @refused keyword c hbound =>
    rw [keywordCreator?_eq] at hbound
    simp only [Call.rebind]
    split
    · rename_i hkey
      rw [← hkey, Option.or_of_isSome hbound]
    · rfl
  | @unbound keyword order c b' hb =>
    obtain ⟨-, hkeywords, -⟩ := unbindKeyword_eq_ok hb
    simp only [Call.rebind, hkeywords, Std.ExtTreeMap.getElem?_erase,
      Std.LawfulEqOrd.compare_eq_iff_eq]
  | @missing keyword order hfree =>
    rw [keywordCreator?_eq] at hfree
    simp only [Call.rebind]
    split
    · rename_i hkey
      rw [← hkey, hfree]
    · rfl

theorem Consistent.perform (h : b.Consistent) (call : Call) : (b.perform call).2.Consistent := by
  have hperforms := performs_perform b call
  generalize b.perform call = result at *
  cases hperforms with
  | bound hb => exact h.bindKeyword hb
  | refused hbound => exact h
  | unbound hb => exact h.unbindKeyword hb
  | missing hfree => exact h

/-! ## Histories -/

theorem run_concat (calls : List Call) (call : Call) :
    run (calls ++ [call]) = ((run calls).perform call).2 := by
  unfold run
  rw [List.foldl_append]
  rfl

theorem byKeyword_run (calls : List Call) (key : String) :
    (run calls).byKeyword[key]? = calls.foldl (Call.rebind key) none := by
  induction calls using List.reverseRecOn with
  | nil => simp [run]
  | append_singleton calls call ih =>
    rw [run_concat, byKeyword_perform, ih, List.foldl_append]
    rfl

/-- A keyword has the creator that its own calls leave it. -/
theorem keywordCreator?_run (calls : List Call) (keyword : String) :
    (run calls).keywordCreator? keyword =
      calls.foldl (Call.rebind (Text.foldCase keyword)) none :=
  byKeyword_run calls (Text.foldCase keyword)

theorem consistent_run (calls : List Call) : (run calls).Consistent :=
  List.foldlRecOn (motive := Consistent) calls _ consistent_empty fun _ h call _ => h.perform call

/-- Keywords are bound under their case-folded form. -/
theorem foldCase_of_bound {calls : List Call} (h : ((run calls).byKeyword[key]?).isSome) :
    Text.foldCase key = key := by
  by_contra hkey
  rw [byKeyword_run] at h
  have hnone : calls.foldl (Call.rebind key) none = none :=
    List.foldlRecOn (motive := (· = none)) calls _ rfl fun current hcurrent call _ => by
      rw [hcurrent, Call.rebind_of_not_folded hkey]
  rw [hnone] at h
  simp at h

/-- The creator of a type is bound to a keyword, and makes declarations of the type. -/
theorem exists_keyword_of_typeCreator? {calls : List Call}
    (h : (run calls).typeCreator? t = some c) :
    c.declType = t ∧ ∃ keyword, (run calls).keywordCreator? keyword = some c := by
  obtain ⟨htype, key, hkey⟩ := (consistent_run calls).bound t c h
  have hfolded : Text.foldCase key = key := foldCase_of_bound (by rw [hkey]; rfl)
  refine ⟨htype, key, ?_⟩
  rw [keywordCreator?_eq, hfolded, hkey]

/-- A type has a creator exactly while some keyword is bound to one that makes it. -/
theorem isSome_typeCreator?_iff (calls : List Call) (t : DeclType) :
    ((run calls).typeCreator? t).isSome ↔
      ∃ keyword c, (run calls).keywordCreator? keyword = some c ∧ c.declType = t := by
  constructor
  · intro h
    obtain ⟨c, hc⟩ := Option.isSome_iff_exists.mp h
    obtain ⟨htype, keyword, hkeyword⟩ := exists_keyword_of_typeCreator? hc
    exact ⟨keyword, c, hkeyword, htype⟩
  · rintro ⟨keyword, c, hkeyword, rfl⟩
    exact (consistent_run calls).typed (Text.foldCase keyword) c hkeyword

/-- After every history the creators of types are those bound to keywords, types that are assigned
to a block or meet a need have creators, every keyword has what its own calls leave it, and a call
that fails changes nothing. -/
theorem creators_run (calls : List Call) :
    let b := run calls
    (∀ t, (b.typeCreator? t).isSome ↔
      ∃ keyword c, b.keywordCreator? keyword = some c ∧ c.declType = t) ∧
    (∀ t c, b.typeCreator? t = some c →
      c.declType = t ∧ ∃ keyword, b.keywordCreator? keyword = some c) ∧
    (∀ keyword t t', b.assign keyword t = .assigned t' → (b.typeCreator? t').isSome) ∧
    (∀ need t, b.meet need = some t → (b.typeCreator? t).isSome) ∧
    (∀ keyword, b.keywordCreator? keyword =
      calls.foldl (Call.rebind (Text.foldCase keyword)) none) ∧
    ∀ call e, (b.perform call).1 = .error e → (b.perform call).2 = b := by
  intro b
  have hb : b.Consistent := consistent_run calls
  refine ⟨isSome_typeCreator?_iff calls, fun t c hc => exists_keyword_of_typeCreator? hc, ?_, ?_,
    keywordCreator?_run calls, fun call e he => perform_of_error he⟩
  · intro keyword t t' ha
    exact hb.isSome_of_assign ha
  · intro need t hm
    exact hb.isSome_of_meet hm

/-- A type keeps a creator until the last of its keywords is unbound, in any case of letters. -/
example :
    let sound : Creator := .plain ⟨"sound"⟩
    let calls : List Call := [.bind "Sound" sound, .bind "noise" sound, .unbind "SOUND" .listed]
    ((run calls).typeCreator? ⟨"sound"⟩).isSome = true ∧
      ((run (calls ++ [.unbind "Noise" .listed])).typeCreator? ⟨"sound"⟩).isSome = false := by
  decide

end Bindings

end AssetDecl
