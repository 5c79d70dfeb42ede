import StaticTyping.Proofs.Order.Footprint

/-! Jobs that are done one after the other, in one order or in another. If each job puts out the same
wherever it stands, then all of them together do, up to order. -/

namespace StaticTyping

open List Footprint

namespace State

variable {s t : State}

def diagnosticsTo (s t : State) : List Diagnostic :=
  t.diagnostics.entries.toList.drop s.diagnostics.entries.toList.length

def typesTo (s t : State) : List (ExprId × Ty) :=
  t.types.log.take (t.types.log.length - s.types.log.length)

structure Precedes (s t : State) : Prop where
  diagnostics : t.diagnostics.entries.toList = s.diagnostics.entries.toList ++ s.diagnosticsTo t
  types : t.types.log = s.typesTo t ++ s.types.log

lemma diagnosticsTo_eq {ds : List Diagnostic}
    (h : t.diagnostics.entries.toList = s.diagnostics.entries.toList ++ ds) :
    s.diagnosticsTo t = ds := by
  simp [diagnosticsTo, h]

lemma typesTo_eq {xs : List (ExprId × Ty)} (h : t.types.log = xs ++ s.types.log) :
    s.typesTo t = xs := by
  simp [typesTo, h]

lemma outputs_of_adds {m : Mirror} {s' t' : State} (h : m.Adds s t s' t') :
    s.Precedes s' ∧ t.Precedes t' ∧ m.output (s.diagnosticsTo s') (t.diagnosticsTo t') ∧
      Forall₂ (fun x y => x.1 = y.1 ∧ x.2.Mirrors m.toPairing y.2) (s.typesTo s')
        (t.typesTo t') := by
  obtain ⟨⟨ds, es, hds, hes, hout⟩, xs, ys, hxs, hys, hlog⟩ := h
  refine ⟨⟨?_, ?_⟩, ⟨?_, ?_⟩, ?_, ?_⟩
  · rw [diagnosticsTo_eq hds, hds]
  · rw [typesTo_eq hxs, hxs]
  · rw [diagnosticsTo_eq hes, hes]
  · rw [typesTo_eq hys, hys]
  · rwa [diagnosticsTo_eq hds, diagnosticsTo_eq hes]
  · rwa [typesTo_eq hxs, typesTo_eq hys]

end State

namespace Check

variable {job job' : StmtId → Check Unit} {x y : StmtId} {xs ys : List StmtId} {s t u v : State}

def after (job : StmtId → Check Unit) (xs : List StmtId) (s : State) : State :=
  ((xs.forM job).run s).2

@[simp] lemma after_nil : after job [] s = s := rfl

@[simp] lemma after_cons : after job (x :: xs) s = after job xs ((job x).run s).2 :=
  congrArg Prod.snd (run_bind (job x) (fun _ => xs.forM job) s)

lemma after_append : after job (xs ++ ys) s = after job ys (after job xs s) := by
  induction xs generalizing s with
  | nil => rfl
  | cons x xs ih => simp [ih]

def starts (job : StmtId → Check Unit) : List StmtId → State → List (StmtId × State)
  | [], _ => []
  | x :: rest, s => (x, s) :: starts job rest ((job x).run s).2

lemma starts_keys : (starts job xs s).map (·.1) = xs := by
  induction xs generalizing s with
  | nil => rfl
  | cons x xs ih => simp [starts, ih]

lemma mem_starts (h : (x, u) ∈ starts job xs s) :
    ∃ before later, xs = before ++ x :: later ∧ u = after job before s := by
  induction xs generalizing s with
  | nil => simp [starts] at h
  | cons y xs ih =>
    rcases mem_cons.mp h with heq | h
    · obtain ⟨rfl, rfl⟩ := Prod.mk.inj heq
      exact ⟨[], xs, rfl, rfl⟩
    · obtain ⟨before, later, rfl, rfl⟩ := ih h
      exact ⟨y :: before, later, rfl, by simp⟩

lemma mem_of_start (h : (x, u) ∈ starts job xs s) : x ∈ xs := by
  have hkey : x ∈ (starts job xs s).map (·.1) := mem_map_of_mem h
  rwa [starts_keys] at hkey

lemma exists_start (job : StmtId → Check Unit) (s : State) (h : x ∈ xs) :
    ∃ u, (x, u) ∈ starts job xs s := by
  have hkey : x ∈ (starts job xs s).map (·.1) := by rwa [starts_keys]
  obtain ⟨⟨_, u⟩, hu, rfl⟩ := mem_map.mp hkey
  exact ⟨u, hu⟩

lemma starts_unique (hnodup : xs.Nodup) (hu : (x, u) ∈ starts job xs s)
    (hv : (x, v) ∈ starts job xs s) : u = v := by
  have hkeys : ((starts job xs s).map (·.1)).Nodup := by rwa [starts_keys]
  exact congrArg Prod.snd (inj_on_of_nodup_map hkeys hu hv rfl)

lemma size_le_start (h : (x, u) ∈ starts job xs s) : s.symbols.size ≤ u.symbols.size := by
  obtain ⟨before, -, -, rfl⟩ := mem_starts h
  exact size_le_run _ s

lemma starts_apart (hxy : x ≠ y) (hu : (x, u) ∈ starts job xs s) (hv : (y, v) ∈ starts job xs s) :
    ((job x).run u).2.symbols.size ≤ v.symbols.size ∨
      ((job y).run v).2.symbols.size ≤ u.symbols.size := by
  induction xs generalizing s with
  | nil => simp [starts] at hu
  | cons z xs ih =>
    rcases mem_cons.mp hu with hu | hu <;> rcases mem_cons.mp hv with hv | hv
    · exact absurd ((congrArg Prod.fst hu).trans (congrArg Prod.fst hv).symm) hxy
    · obtain ⟨rfl, rfl⟩ := Prod.mk.inj hu
      exact .inl (size_le_start hv)
    · obtain ⟨rfl, rfl⟩ := Prod.mk.inj hv
      exact .inr (size_le_start hu)
    · exact ih hu hv

/-- Each job keeps what holds when it starts. Of the first `n` symbols, of names and of declarations it
touches its own footprint only. -/
def Confined (n : Nat) (I : State → Prop) (f : StmtId → Footprint) (job : StmtId → Check Unit)
    (xs : List StmtId) : Prop :=
  ∀ x ∈ xs, ∀ s, I s → n ≤ s.symbols.size →
    I ((job x).run s).2 ∧ (f x).Touches n s ((job x).run s).2

section Confined

variable {I : State → Prop} {f : StmtId → Footprint} {n : Nat}

lemma after_touches (hjob : Confined n I f job xs) (hs : I s) (hn : n ≤ s.symbols.size) :
    I (after job xs s) ∧ (all f xs).Touches n s (after job xs s) := by
  induction xs generalizing s with
  | nil => exact ⟨hs, .refl _ _ _⟩
  | cons x xs ih =>
    obtain ⟨hx, hxs⟩ := forall_mem_cons.mp hjob
    obtain ⟨hnext, htouch⟩ := hx s hs hn
    obtain ⟨hlast, htouches⟩ := ih hxs hnext (hn.trans htouch.size)
    rw [after_cons]
    exact ⟨hlast, (htouch.one (.head _) le_rfl).trans (htouches.all_mono fun _ => .tail _)⟩

variable (hnodup : xs.Nodup) (hs : I s)

include hnodup hs

/-- Before a job starts the others alone were at work. -/
lemma start_touches (hjob : Confined n I f job xs) (hn : n ≤ s.symbols.size)
    (h : (x, u) ∈ starts job xs s) : I u ∧ (all f (xs.erase x)).Touches n s u := by
  obtain ⟨before, later, rfl, rfl⟩ := mem_starts h
  have hbefore : Confined n I f job before := fun y hy => hjob y (mem_append_left _ hy)
  obtain ⟨hu, htouches⟩ := after_touches hbefore hs hn
  refine ⟨hu, htouches.all_mono fun y hy => ?_⟩
  refine (hnodup.mem_erase_iff).mpr ⟨?_, mem_append_left _ hy⟩
  rintro rfl
  exact (nodup_append.mp hnodup).2.2 _ hy _ (.head _) rfl

/-- After a job the others alone are at work. -/
lemma end_touches (hjob : ∀ n, Confined n I f job xs) (h : (x, u) ∈ starts job xs s) :
    (all f (xs.erase x)).Touches ((job x).run u).2.symbols.size ((job x).run u).2
      (after job xs s) := by
  have hu := (start_touches hnodup hs (hjob 0) (Nat.zero_le _) h).1
  obtain ⟨before, later, rfl, rfl⟩ := mem_starts h
  have hnext := (hjob 0 x (mem_append_right _ (.head _)) _ hu (Nat.zero_le _)).1
  have hlater (n : Nat) : Confined n I f job later := fun y hy =>
    hjob n y (mem_append_right _ (.tail _ hy))
  rw [after_append, after_cons]
  refine (after_touches (hlater _) hnext le_rfl).2.all_mono fun y hy => ?_
  refine (hnodup.mem_erase_iff).mpr ⟨?_, mem_append_right _ (.tail _ hy)⟩
  rintro rfl
  exact (nodup_cons.mp (nodup_append.mp hnodup).2.1).1 hy

end Confined

section Outputs

variable (hs : ∀ entry ∈ starts job xs s, entry.2.Precedes ((job entry.1).run entry.2).2)
  {e : ExprId}

include hs

lemma after_diagnostics :
    (after job xs s).diagnostics.entries.toList = s.diagnostics.entries.toList ++
      ((starts job xs s).map fun entry => entry.2.diagnosticsTo ((job entry.1).run entry.2).2).flatten
    := by
  induction xs generalizing s with
  | nil => simp [starts]
  | cons x xs ih =>
    obtain ⟨hx, hxs⟩ := forall_mem_cons.mp hs
    rw [after_cons, ih hxs, hx.diagnostics]
    simp [starts]

lemma lookup_after {ty : Ty} (h : (after job xs s).types.log.lookup e = some ty) :
    s.types.log.lookup e = some ty ∨ ∃ entry ∈ starts job xs s,
      (entry.2.typesTo ((job entry.1).run entry.2).2).lookup e = some ty := by
  induction xs generalizing s with
  | nil => exact .inl h
  | cons x xs ih =>
    obtain ⟨hx, hxs⟩ := forall_mem_cons.mp hs
    rw [after_cons] at h
    rcases ih hxs h with h | ⟨entry, hentry, h⟩
    · rw [hx.types, lookup_append, Option.or_eq_some_iff] at h
      rcases h with h | ⟨-, h⟩
      · exact .inr ⟨(x, s), .head _, h⟩
      · exact .inl h
    · exact .inr ⟨entry, .tail _ hentry, h⟩

lemma isSome_lookup_after (h : (s.types.log.lookup e).isSome ∨ ∃ entry ∈ starts job xs s,
      ((entry.2.typesTo ((job entry.1).run entry.2).2).lookup e).isSome) :
    ((after job xs s).types.log.lookup e).isSome := by
  induction xs generalizing s with
  | nil => simpa [starts] using h
  | cons x xs ih =>
    obtain ⟨hx, hxs⟩ := forall_mem_cons.mp hs
    rw [after_cons]
    refine ih hxs ?_
    rw [hx.types, lookup_append, Option.isSome_or, Bool.or_eq_true]
    rcases h with h | ⟨entry, hentry, h⟩
    · exact .inl (.inr h)
    · rcases mem_cons.mp hentry with rfl | hentry
      · exact .inl (.inl h)
      · exact .inr ⟨entry, hentry, h⟩

end Outputs

lemma perm_of_agree {α β : Type} {as bs : List (α × β)} (hkeys : (as.map (·.1)).Perm (bs.map (·.1)))
    (hnodup : (as.map (·.1)).Nodup) (h : ∀ x a b, (x, a) ∈ as → (x, b) ∈ bs → a = b) : as.Perm bs := by
  have hmem : ∀ {cs ds : List (α × β)}, (cs.map (·.1)).Perm (ds.map (·.1)) →
      (∀ x c d, (x, c) ∈ cs → (x, d) ∈ ds → c = d) → ∀ entry ∈ cs, entry ∈ ds := by
    rintro cs ds hkeys h ⟨x, c⟩ hc
    obtain ⟨⟨_, d⟩, hd, rfl⟩ := mem_map.mp (hkeys.mem_iff.mp (mem_map_of_mem hc))
    rwa [h _ c d hc hd]
  rw [perm_ext_iff_of_nodup hnodup.of_map (hkeys.nodup_iff.mp hnodup).of_map]
  exact fun entry => ⟨hmem hkeys h entry, hmem hkeys.symm (fun x c d hc hd => (h x d c hd hc).symm) entry⟩

/-- Jobs that put out the same diagnostics in both orders do so all together, up to order. -/
lemma after_diagnostics_perm (hperm : xs.Perm ys) (hnodup : xs.Nodup)
    (hs : ∀ entry ∈ starts job xs s, entry.2.Precedes ((job entry.1).run entry.2).2)
    (ht : ∀ entry ∈ starts job' ys t, entry.2.Precedes ((job' entry.1).run entry.2).2)
    (hstart : s.diagnostics.entries.toList.Perm t.diagnostics.entries.toList)
    (hsame : ∀ x u v, (x, u) ∈ starts job xs s → (x, v) ∈ starts job' ys t →
      u.diagnosticsTo ((job x).run u).2 = v.diagnosticsTo ((job' x).run v).2) :
    (after job xs s).diagnostics.entries.toList.Perm (after job' ys t).diagnostics.entries.toList := by
  rw [after_diagnostics hs, after_diagnostics ht]
  refine hstart.append ?_
  have hagree : ((starts job xs s).map fun entry =>
        (entry.1, entry.2.diagnosticsTo ((job entry.1).run entry.2).2)).Perm
      ((starts job' ys t).map fun entry =>
        (entry.1, entry.2.diagnosticsTo ((job' entry.1).run entry.2).2)) := by
    refine perm_of_agree ?_ ?_ fun x a b ha hb => ?_
    · simpa only [map_map, Function.comp_def, starts_keys] using hperm
    · simpa only [map_map, Function.comp_def, starts_keys] using hnodup
    obtain ⟨⟨_, u⟩, hu, heq⟩ := mem_map.mp ha
    obtain ⟨rfl, rfl⟩ := Prod.mk.inj heq
    obtain ⟨⟨_, v⟩, hv, heq⟩ := mem_map.mp hb
    obtain ⟨rfl, rfl⟩ := Prod.mk.inj heq
    exact hsame _ u v hu hv
  simpa only [map_map, Function.comp_def] using (hagree.map (·.2)).flatten

end Check

end StaticTyping
