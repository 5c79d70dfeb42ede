import StaticTyping.Proofs.Types.Canonical
import StaticTyping.Proofs.Visited.Depth
import StaticTyping.Rule.Narrowing

/-! Types with and without `null`. To rule `null` out takes one member away and nothing else, so that
what a comparison with `null` says about a name in its two branches covers all that the name may be. -/

namespace StaticTyping.Ty

open List

variable {t x : Ty}

lemma isNull_iff : t.isNull ↔ t = .null := by
  cases t with
  | prim p => cases p <;> simp [isNull]
  | _ => simp [isNull]

def otherMembers (t : Ty) : List Ty := t.unionMembers.filter (!·.isNull)

lemma mem_otherMembers : x ∈ t.otherMembers ↔ x ∈ t.unionMembers ∧ x ≠ .null := by
  simp [otherMembers, ← isNull_iff]

lemma otherMembers_of_not_mem (h : .null ∉ t.unionMembers) : t.otherMembers = t.unionMembers := by
  refine filter_eq_self.mpr fun x hx => ?_
  have hne : x ≠ .null := fun heq => h (heq ▸ hx)
  simpa [← isNull_iff] using hne

lemma removeNull_eq (t : Ty) : t.removeNull = makeUnion t.otherMembers := by
  cases t with
  | prim p => cases p <;> rfl
  | _ => rfl

variable (h : t.Normal)

include h

lemma normal_of_mem_otherMembers : ∀ x ∈ t.otherMembers, x.Normal :=
  fun _ hx => normal_of_mem_unionMembers h (mem_otherMembers.mp hx).1

lemma removeNull_normal : t.removeNull.Normal := by
  rw [removeNull_eq]
  exact makeUnion_normal (normal_of_mem_otherMembers h)

lemma unionMembers_removeNull (hother : t.otherMembers ≠ []) :
    t.removeNull.unionMembers = t.otherMembers := by
  rw [removeNull_eq, unionMembers_makeUnion (normal_of_mem_otherMembers h) hother]
  refine dedup_flatMap_unionMembers (fun x hx => ?_) (h.distinct_unionMembers.sublist filter_sublist)
  exact single_of_mem_unionMembers h (mem_otherMembers.mp hx).1

lemma null_not_mem_removeNull : .null ∉ t.removeNull.unionMembers := by
  by_cases hother : t.otherMembers = []
  · rw [removeNull_eq, hother]
    simp [makeUnion, dedup, unionMembers]
  · rw [unionMembers_removeNull h hother]
    exact fun hmem => (mem_otherMembers.mp hmem).2 rfl

lemma otherMembers_ne_nil (hne : t ≠ .null) : t.otherMembers ≠ [] := by
  suffices hsome : ∃ x ∈ t.unionMembers, x ≠ .null by
    obtain ⟨x, hx⟩ := hsome
    exact ne_nil_of_mem (mem_otherMembers.mpr hx)
  rcases isSingle_or_union t with hsingle | ⟨members, rfl⟩
  · exact ⟨t, by simp [unionMembers_of_single hsingle], hne⟩
  · -- Of two members that are told apart, not both are `null`.
    obtain ⟨htwo, -, hdistinct⟩ := h.here
    match members with
    | [] | [_] => simp at htwo
    | a :: b :: rest =>
      by_cases ha : a = .null
      · refine ⟨b, .tail _ (.head _), fun hb => ?_⟩
        have hapart := (rel_of_pairwise_cons hdistinct (.head _)).1
        rw [ha, hb] at hapart
        exact Bool.false_ne_true (hapart.symm.trans (same_refl _))
      · exact ⟨a, .head _, ha⟩

lemma removeNull_of_not_mem (hnull : .null ∉ t.unionMembers) : t.removeNull = t := by
  rw [removeNull_eq, otherMembers_of_not_mem hnull, makeUnion_unionMembers h]

omit h in
lemma null_normal : Ty.null.Normal := .intro trivial (by simp [parts])

omit h in
lemma error_normal : Ty.error.Normal := .intro trivial (by simp [parts])

lemma same_makeUnion_removeNull (hnull : .null ∈ t.unionMembers) (hne : t ≠ .null) :
    same (makeUnion [t.removeNull, .null]) t := by
  have hpair : ∀ u ∈ [t.removeNull, .null], u.Normal := by simp [removeNull_normal h, null_normal]
  rw [same_iff_sameMembers (makeUnion_normal hpair) h]
  refine (sameMembers_makeUnion hpair (by simp)).trans (.of_mem_iff fun x => ?_)
  have hmem : x ∈ [t.removeNull, .null].flatMap unionMembers ↔ x ∈ t.otherMembers ∨ x = .null := by
    rw [← unionMembers_removeNull h (otherMembers_ne_nil h hne)]
    simp [show Ty.null.unionMembers = [.null] from rfl]
  rw [hmem, mem_otherMembers]
  by_cases hx : x = .null
  · simp [hx, hnull]
  · simp [hx]

lemma removeNull_makeUnion (hnull : .null ∉ t.unionMembers) : (makeUnion [t, .null]).removeNull = t := by
  have hmembers : (makeUnion [t, .null]).unionMembers = insertMember t.unionMembers .null := by
    rw [unionMembers_makeUnion (by simp [h, null_normal]) (by simp)]
    calc dedup ([t, .null].flatMap unionMembers)
      _ = insertMember (dedup t.unionMembers) .null := foldl_append
      _ = insertMember t.unionMembers .null := by rw [dedup_of_distinct h.distinct_unionMembers]
  have hother : (makeUnion [t, .null]).otherMembers = t.unionMembers := by
    have hfilter := otherMembers_of_not_mem hnull
    rw [otherMembers] at hfilter ⊢
    rw [hmembers, insertMember]
    split
    · exact hfilter
    · rw [filter_append, hfilter]
      simp [isNull]
  rw [removeNull_eq, hother, makeUnion_unionMembers h]

lemma assignable_removeNull_or_null {ts : List Ty} (hts : ∀ u ∈ ts, u.Normal)
    (hother : t.removeNull ∈ ts) (hnull : .null ∈ ts) : t.assignable (makeUnion ts) := by
  have hunion := makeUnion_normal hts
  have hupper := (assignable_makeUnion_iff hts hunion).mp (assignable_of_same (same_refl _))
  rw [assignable_iff_from_members h hunion]
  intro x hx
  by_cases hxnull : x = .null
  · exact hxnull ▸ hupper _ hnull
  · have hmem : x ∈ t.otherMembers := mem_otherMembers.mpr ⟨hx, hxnull⟩
    rw [← unionMembers_removeNull h (ne_nil_of_mem hmem)] at hmem
    exact (assignable_iff_from_members (removeNull_normal h) hunion).mp (hupper _ hother) x hmem

omit h

/-- Besides `null` only an error leaves an error, alone or next to `null`. -/
lemma eq_of_removeNull_eq_error (h : t.Normal) (herror : t.removeNull = .error) :
    t = .null ∨ t = .error ∨ t == .union [.null, .error] := by
  by_cases hne : t = .null
  · exact .inl hne
  by_cases hnull : .null ∈ t.unionMembers
  · have hsame := same_makeUnion_removeNull h hnull hne
    rw [herror] at hsame
    have hback : same t (makeUnion [.error, .null]) :=
      ((makeUnion_normal (by simp [null_normal, error_normal])).same_comm h).mp hsame
    exact .inr (.inr (same_trans hback (by decide +kernel)))
  · exact .inr (.inl ((removeNull_of_not_mem h hnull).symm.trans herror))

end StaticTyping.Ty

namespace StaticTyping

/-- The condition compares the name with `null`, in either order and in whatever parentheses. -/
def Program.ComparesNull (p : Program) (op : BinaryOp) (name : String) (condition : ExprId) : Prop :=
  ∃ left right, (p.expr (p.ungroup condition)).kind = .binary op left right ∧
    ((p.expr left).kind = .name name ∧ (p.expr right).kind = .literal .null ∨
      (p.expr left).kind = .literal .null ∧ (p.expr right).kind = .name name)

variable {env : Env} {name : String} {condition : ExprId} {t : Ty} {s : State}

lemma Program.ComparesNull.nullTest {p : Program} {op : BinaryOp} (h : p.ComparesNull op name condition) :
    ∃ left right, (p.expr (p.ungroup condition)).kind = .binary op left right ∧
      nullTest? (p.expr left).kind (p.expr right).kind = some name := by
  obtain ⟨left, right, hkind, ⟨hleft, hright⟩ | ⟨hleft, hright⟩⟩ := h
  · exact ⟨left, right, hkind, by rw [hleft, hright]; rfl⟩
  · exact ⟨left, right, hkind, by rw [hleft, hright]; rfl⟩

lemma run_findNarrowing {holdsForNull : Bool}
    (hcondition : env.program.nullCondition? condition = some (name, holdsForNull))
    (hty : s.scopes.valueType s.symbols name = .ok (some t)) :
    (Check.ofRule env (Rule.findNarrowing env.program condition)).run s =
      (Narrowing.ofType? name holdsForNull t, s) := by
  have hlookup : (Check.ofRule env (.perform (.lookupValueType name))).run s = (some t, s) := by
    show (Action.lookupValueType name).step s = _
    simp only [Action.step, hty]
  simp only [Rule.findNarrowing, hcondition, Check.ofRule_bind, Check.run_bind, hlookup]
  rfl

/-- To rule `null` out of a type in normal form loses nothing else. What is left is in normal form and
without `null`; it is an error only for `null`, for an error and for the union of both. With `null` it is
the union again that it was taken from, and without `null` there is nothing to lose. The types that a name
has in the two branches of a comparison with `null` cover its type together. -/
theorem Ty.removeNull_loses_nothing (t : Ty) (h : t.Normal) :
    t.removeNull.Normal ∧ .null ∉ t.removeNull.unionMembers ∧
      (t.removeNull = .error → t = .null ∨ t = .error ∨ t == .union [.null, .error]) ∧
      (∀ members, t = .union members → .null ∈ members → makeUnion [t.removeNull, .null] == t) ∧
      (.null ∉ t.unionMembers → t.removeNull = t ∧ (makeUnion [t, .null]).removeNull = t) ∧
      ∀ (env : Env) (s : State) (name : String) (equal unequal : ExprId),
        env.program.ComparesNull .equal name equal → env.program.ComparesNull .notEqual name unequal →
        s.scopes.valueType s.symbols name = .ok (some t) → t.isAbsorbing = false →
        ∃ n n' : Narrowing,
          (Check.ofRule env (Rule.findNarrowing env.program equal)).run s = (some n, s) ∧
          (Check.ofRule env (Rule.findNarrowing env.program unequal)).run s = (some n', s) ∧
          n = ⟨name, .null, t.removeNull⟩ ∧ n' = ⟨name, t.removeNull, .null⟩ ∧
          t.assignable (makeUnion [n.consequent, n.alternative]) ∧
          t.assignable (makeUnion [n'.consequent, n'.alternative]) ∧
          t.assignable (makeUnion [n.consequent, n'.consequent]) := by
  refine ⟨removeNull_normal h, null_not_mem_removeNull h, eq_of_removeNull_eq_error h, ?_, ?_, ?_⟩
  · rintro members rfl hnull
    exact same_makeUnion_removeNull h hnull (by simp)
  · exact fun hnull => ⟨removeNull_of_not_mem h hnull, removeNull_makeUnion h hnull⟩
  · intro env s name equal unequal hequal hunequal hty habsorbing
    obtain ⟨left, right, hkind, hnull⟩ := hequal.nullTest
    obtain ⟨left', right', hkind', hnull'⟩ := hunequal.nullTest
    have hnormal : ∀ u ∈ [t.removeNull, .null], u.Normal := by simp [removeNull_normal h, null_normal]
    have hnormal' : ∀ u ∈ [.null, t.removeNull], u.Normal := by simp [removeNull_normal h, null_normal]
    have htest : env.program.nullCondition? equal = some (name, true) := by
      simp [Program.nullCondition?, hkind, hnull]
    have htest' : env.program.nullCondition? unequal = some (name, false) := by
      simp [Program.nullCondition?, hkind', hnull']
    refine ⟨_, _, ?_, ?_, rfl, rfl, ?_, ?_, ?_⟩
    · rw [run_findNarrowing htest hty]
      simp [Narrowing.ofType?, habsorbing]
    · rw [run_findNarrowing htest' hty]
      simp [Narrowing.ofType?, habsorbing]
    · exact assignable_removeNull_or_null h hnormal' (.tail _ (.head _)) (.head _)
    · exact assignable_removeNull_or_null h hnormal (.head _) (.tail _ (.head _))
    · exact assignable_removeNull_or_null h hnormal' (.tail _ (.head _)) (.head _)

/-- Nothing, an integer or an error, and the two comparisons of a name of that type with `null`. -/
theorem Ty.removeNull_loses_nothing_sample :
    let t : Ty := .union [.null, .prim .i32, .error]
    let env : Env := ⟨{ expressions := #[⟨{}, .name "x"⟩, ⟨{}, .literal .null⟩,
      ⟨{}, .binary .equal ⟨0⟩ ⟨1⟩⟩, ⟨{}, .group ⟨2⟩⟩, ⟨{}, .binary .notEqual ⟨1⟩ ⟨0⟩⟩] }, {}⟩
    let s : State := {
      symbols := ⟨#[{ name := "x", kind := .value, ty := some t }]⟩
      scopes := { inner := { values := [("x", ⟨0⟩)] } } }
    t.Normal ∧ t.removeNull.Normal ∧ t.removeNull ≠ .error ∧ makeUnion [t.removeNull, .null] == t ∧
      (makeUnion [t.removeNull, .null]).removeNull = t.removeNull ∧
      ∃ n n' : Narrowing,
        (Check.ofRule env (Rule.findNarrowing env.program ⟨3⟩)).run s = (some n, s) ∧
        (Check.ofRule env (Rule.findNarrowing env.program ⟨4⟩)).run s = (some n', s) ∧
        t.assignable (makeUnion [n.consequent, n.alternative]) ∧
        t.assignable (makeUnion [n'.consequent, n'.alternative]) := by
  intro t env s
  have hpart : (Ty.prim .i32).Normal := .intro trivial (by simp [parts])
  have ht : t.Normal := .of_parts ⟨by simp, by simp, by simp [Distinct, BEq.beq, same]⟩
    (by simp [t, parts, null_normal, error_normal, hpart])
  obtain ⟨hnormal, hnull, herror, hback, -, hnarrows⟩ := removeNull_loses_nothing t ht
  obtain ⟨-, -, -, -, hkeeps, -⟩ := removeNull_loses_nothing t.removeNull hnormal
  have hequal : env.program.ComparesNull .equal "x" ⟨3⟩ := ⟨⟨0⟩, ⟨1⟩, rfl, .inl ⟨rfl, rfl⟩⟩
  have hunequal : env.program.ComparesNull .notEqual "x" ⟨4⟩ := ⟨⟨1⟩, ⟨0⟩, rfl, .inr ⟨rfl, rfl⟩⟩
  obtain ⟨n, n', hn, hn', -, -, hcovers, hcovers', -⟩ := hnarrows env s "x" ⟨3⟩ ⟨4⟩ hequal hunequal rfl rfl
  refine ⟨ht, hnormal, fun heq => ?_, hback _ rfl (.head _), (hkeeps hnull).2, n, n', hn, hn', hcovers, hcovers'⟩
  have hsame : (t == .union [.null, .error]) = false := by decide +kernel
  simpa [t, hsame] using herror heq

/-- The union of `null` and an error is neither of the two, and it leaves an error. -/
theorem Ty.removeNull_null_or_error :
    let t : Ty := .union [.null, .error]
    t.Normal ∧ t ≠ .null ∧ t ≠ .error ∧ t.removeNull = .error := by
  refine ⟨.of_parts ⟨by simp, by simp, by simp [Distinct, BEq.beq, same]⟩ (by simp [parts, null_normal, error_normal]),
    by simp, by simp, ?_⟩
  simp [removeNull, isNull, makeUnion, dedup, unionMembers, insertMember]

end StaticTyping
