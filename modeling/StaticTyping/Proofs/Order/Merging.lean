import StaticTyping.Proofs.Order.Registration
import StaticTyping.Proofs.Visited.Forest

/-! Registering all items in two orders. Each item is registered alike wherever it stands, and at the end
the states are the same up to which symbol is which. -/

namespace StaticTyping

open Check Region Option Footprint

/-- The items declare types and functions, each of them once, and all names are different. -/
structure Program.Unordered (p : Program) : Prop where
  singleUse : p.SingleUse
  declarations {x : StmtId} : x ∈ p.items → (p.stmt x).kind.isDeclaration = true
  typeNames : p.typeNames.Nodup
  valueNames : (p.items.flatMap fun x => (p.stmt x).kind.valueNames).Nodup
  results {x : StmtId} {decl : FunctionDecl} :
    x ∈ p.items ∨ (∃ item ∈ p.items, x ∈ p.methodsOf item) → (p.stmt x).kind = .function decl →
      decl.result.isSome

variable {p : Program} {options : Options} {items xs ys : List StmtId} {x y : StmtId}

namespace Program.Unordered

variable (h : p.Unordered)

include h

lemma items_nodup : p.items.Nodup := (List.nodup_append.mp h.singleUse.stmts).1

lemma distinctTypes : p.DistinctTypes := ⟨h.items_nodup, h.declarations, h.typeNames⟩

lemma eq_of_valueName (hx : x ∈ p.items) (hy : y ∈ p.items) {name : String}
    (hname : name ∈ (p.stmt x).kind.valueNames) (hname' : name ∈ (p.stmt y).kind.valueNames) : x = y := by
  by_contra hne
  have hdisjoint := (List.nodup_flatMap.mp h.valueNames).2
  have : Std.Symm (Function.onFun List.Disjoint fun x => (p.stmt x).kind.valueNames) :=
    ⟨fun _ _ h => h.symm⟩
  exact hdisjoint.forall hx hy hne hname hname'

end Program.Unordered

def State.symbolOf (s : State) (x : StmtId) : Option SymbolId := s.declarations.lookup x

def Region.ofItem (p : Program) (s : State) (x : StmtId) : Region where
  values name := name ∈ (p.stmt x).kind.valueNames
  declared id := id = x ∨ id ∈ p.stmtChildren x
  full i := s.symbolOf x = some i ∨ s.symbols.size ≤ i.index

section Orders

variable {s t : State} (hs : TypesRegistered p s) (ht : TypesRegistered p t) {π : SymbolPairs}

lemma Region.ofItem_spared (hp : p.Unordered) (hx : x ∈ p.items) (hy : y ∈ p.items)
    (hne : y ≠ x) (hπ : ∀ i j, π.holds i j →
      (hs.pairs ht).holds i j ∨ s.symbols.size ≤ i.index ∧ t.symbols.size ≤ j.index) :
    (ofItem p s x).Spared π (p.footprint s.symbolOf y) (p.footprint t.symbolOf y) where
  full {i j} hij hfull := by
    rcases hπ i j hij with ⟨z, hz, hz'⟩ | ⟨hi, hj⟩
    · have hzx : z = x := by
        rcases hfull with hfull | hnew
        · exact hs.unique hz hfull
        · exact absurd (hs.fixes hz).1 (not_lt.mpr hnew)
      refine ⟨fun howns => hne ?_, fun howns => hne ?_⟩
      · exact (hs.unique howns hz).trans hzx
      · exact (ht.unique howns hz').trans hzx
    · exact ⟨fun howns => absurd (hs.fixes howns).1 (not_lt.mpr hi),
        fun howns => absurd (ht.fixes howns).1 (not_lt.mpr hj)⟩
  values hname := ⟨fun hname' => hne (hp.eq_of_valueName hy hx (Multiset.mem_coe.mp hname') hname),
      fun hname' => hne (hp.eq_of_valueName hy hx (Multiset.mem_coe.mp hname') hname)⟩
  declared {id} hid := by
    have hnot : ¬(id ∈ p.methodsOf y ∨ p.isFunction y = true ∧ id = y) := by
      rintro (hmethod | ⟨-, rfl⟩)
      · have hchild := Program.mem_stmtChildren_of_mem_methodsOf hmethod
        rcases hid with rfl | hid
        · exact hp.singleUse.not_mem_stmtChildren hx y hchild
        · exact hne (hp.singleUse.apart_stmtChildren.parent y x id hchild hid)
      · rcases hid with rfl | hid
        · exact hne rfl
        · exact hp.singleUse.not_mem_stmtChildren hy x hid
    exact ⟨hnot, hnot⟩

lemma Region.ofItem_spared_all (hp : p.Unordered) (hxs : xs.Perm p.items)
    (hys : ys.Perm p.items) (hx : x ∈ p.items) (hπ : ∀ i j, π.holds i j →
      (hs.pairs ht).holds i j ∨ s.symbols.size ≤ i.index ∧ t.symbols.size ≤ j.index) :
    (ofItem p s x).Spared π (.all (p.footprint s.symbolOf) (xs.erase x))
      (.all (p.footprint t.symbolOf) (ys.erase x)) := by
  have hother {zs : List StmtId} (hzs : zs.Perm p.items) {y : StmtId} (hy : y ∈ zs.erase x) :
      (ofItem p s x).Spared π (p.footprint s.symbolOf y) (p.footprint t.symbolOf y) := by
    obtain ⟨hne, hy⟩ := (hzs.nodup_iff.mpr hp.items_nodup).mem_erase_iff.mp hy
    exact ofItem_spared hs ht hp hx (hzs.mem_iff.mp hy) hne hπ
  exact .all (fun _ hy => hother hxs hy) fun _ hy => hother hys hy

lemma TypesRegistered.ready (hs : TypesRegistered p s) : s.Ready s.symbolOf :=
  ⟨hs.plain, fun h => hs.fixes h⟩

structure JointStart (p : Program) (options : Options) (items xs ys : List StmtId) (s t : State) where
  item : StmtId
  left : State
  right : State
  left_mem : (item, left) ∈ starts (registerItem ⟨p, options⟩ s.symbolOf) xs s
  right_mem : (item, right) ∈ starts (registerItem ⟨p.inOrder items, options⟩ t.symbolOf) ys t

namespace JointStart

variable {i j : SymbolId}

abbrev leftEnd (e : JointStart p options items xs ys s t) : State :=
  registeredItem ⟨p, options⟩ s.symbolOf e.item e.left

abbrev rightEnd (e : JointStart p options items xs ys s t) : State :=
  registeredItem ⟨p.inOrder items, options⟩ t.symbolOf e.item e.right

lemma exists_of_mem (p : Program) (options : Options) (items : List StmtId) (s t : State)
    (hx : x ∈ xs) (hy : x ∈ ys) : ∃ e : JointStart p options items xs ys s t, e.item = x := by
  obtain ⟨u, hu⟩ := exists_start (registerItem ⟨p, options⟩ s.symbolOf) s hx
  obtain ⟨v, hv⟩ := exists_start (registerItem ⟨p.inOrder items, options⟩ t.symbolOf) t hy
  exact ⟨⟨x, u, v, hu, hv⟩, rfl⟩

variable (e : JointStart p options items xs ys s t)

/-- The pairs of the types, and of all that is made while the item is registered. -/
def block : SymbolPairs :=
  ((hs.pairs ht).openAt e.left.symbols.size e.right.symbols.size).upTo e.leftEnd.symbols.size

lemma block_of_pairs (hij : (hs.pairs ht).holds i j) : (e.block hs ht).holds i j := by
  obtain ⟨hi, hj⟩ := (hs.matches_pairs ht .whole).within hij
  have hleft := hi.trans_le (size_le_start e.left_mem)
  exact ⟨.inl ⟨hij, hleft, hj.trans_le (size_le_start e.right_mem)⟩,
    hleft.trans_le (size_le_run _ _)⟩

lemma pairs_or_made (hij : (e.block hs ht).holds i j) : (hs.pairs ht).holds i j ∨
      e.left.symbols.size ≤ i.index ∧ e.right.symbols.size ≤ j.index := by
  obtain ⟨⟨hij, -, -⟩ | ⟨k, rfl, rfl⟩, -⟩ := hij
  · exact .inl hij
  · exact .inr ⟨Nat.le_add_right _ _, Nat.le_add_right _ _⟩

lemma pairs_or_new (hij : (e.block hs ht).holds i j) :
    (hs.pairs ht).holds i j ∨ s.symbols.size ≤ i.index ∧ t.symbols.size ≤ j.index :=
  (e.pairs_or_made hs ht hij).imp_right fun h =>
    ⟨(size_le_start e.left_mem).trans h.1, (size_le_start e.right_mem).trans h.2⟩

variable (hp : p.Unordered) (hxs : xs.Perm p.items) (hys : ys.Perm p.items)

include hxs in
lemma item_mem : e.item ∈ p.items := hxs.mem_iff.mp (mem_of_start e.left_mem)

include hp

include hs hxs in
lemma left_ready : e.left.Ready s.symbolOf ∧
    (all (p.footprint s.symbolOf) (xs.erase e.item)).Touches s.symbols.size s e.left :=
  start_touches (hxs.nodup_iff.mpr hp.items_nodup) hs.ready (registerItem_confined _ _ _)
    le_rfl e.left_mem

include ht hys in
lemma right_ready : e.right.Ready t.symbolOf ∧
    (all (p.footprint t.symbolOf) (ys.erase e.item)).Touches t.symbols.size t e.right :=
  start_touches (hys.nodup_iff.mpr hp.items_nodup) ht.ready (registerItem_confined _ _ _)
    le_rfl e.right_mem

include hxs hys

/-- The items before one leave it alone, in both orders. -/
lemma matches_start : (ofItem p s e.item).Matches (hs.pairs ht) e.left e.right := by
  have hmatches := hs.matches_pairs ht (.ofItem p s e.item)
  exact hmatches.frame (e.left_ready hs hp hxs).2 (e.right_ready ht hp hys).2
    (fun i j hij => hmatches.within hij)
    (ofItem_spared_all hs ht hp hxs hys (e.item_mem hxs) fun _ _ => .inl)

lemma registers_alike : (ofItem p s e.item).Matches (e.block hs ht) e.leftEnd e.rightEnd ∧
      e.left.Precedes e.leftEnd ∧ e.right.Precedes e.rightEnd ∧
      e.left.diagnosticsTo e.leftEnd = e.right.diagnosticsTo e.rightEnd := by
  obtain ⟨hready, -⟩ := e.left_ready hs hp hxs
  obtain ⟨hready', -⟩ := e.right_ready ht hp hys
  have hnext := registerItem_ready ⟨p, options⟩ e.item hready
  have hnext' := registerItem_ready ⟨p.inOrder items, options⟩ e.item hready'
  have hnamed : Rel (hs.pairs ht).holds (s.symbolOf e.item) (t.symbolOf e.item) :=
    hs.lookup_rel ht e.item
  obtain ⟨hstates, hadds⟩ := registerItem_runs p items options
    (e.matches_start hs ht hp hxs hys) hready hnamed (.inl rfl) (fun _ => .inr) fun _ h => h
  obtain ⟨hprecedes, hprecedes', hsame, -⟩ := State.outputs_of_adds hadds
  exact ⟨.of_states hstates hnext.toPlain hnext'.root hnext'.calm hnext'.contexts, hprecedes,
    hprecedes', hsame⟩

lemma matches_end : (ofItem p s e.item).Matches (e.block hs ht)
      (after (registerItem ⟨p, options⟩ s.symbolOf) xs s)
      (after (registerItem ⟨p.inOrder items, options⟩ t.symbolOf) ys t) := by
  obtain ⟨hmatches, -⟩ := e.registers_alike hs ht hp hxs hys
  have htouches := end_touches (hxs.nodup_iff.mpr hp.items_nodup) hs.ready
    (fun n => registerItem_confined _ n _) e.left_mem
  have htouches' := end_touches (hys.nodup_iff.mpr hp.items_nodup) ht.ready
    (fun n => registerItem_confined _ n _) e.right_mem
  exact hmatches.frame htouches htouches' (fun i j hij => hmatches.within hij)
    (ofItem_spared_all hs ht hp hxs hys (e.item_mem hxs) fun _ _ => e.pairs_or_new hs ht)

/-- Pairs that have a symbol in common are made while the same item is registered, or are those of
types. -/
lemma block_common {e' : JointStart p options items xs ys s t} {i' j' : SymbolId}
    (hij : (e.block hs ht).holds i j) (hij' : (e'.block hs ht).holds i' j') (h : i = i' ∨ j = j') :
    ∃ d : JointStart p options items xs ys s t,
      (d.block hs ht).holds i j ∧ (d.block hs ht).holds i' j' := by
  obtain ⟨hi, hj⟩ := (e.registers_alike hs ht hp hxs hys).1.within hij
  obtain ⟨hi', hj'⟩ := (e'.registers_alike hs ht hp hxs hys).1.within hij'
  have hsame : i.index = i'.index ∨ j.index = j'.index :=
    h.imp (congrArg SymbolId.index) (congrArg SymbolId.index)
  have hold {a b : SymbolId} (hab : (hs.pairs ht).holds a b) :
      a.index < s.symbols.size ∧ b.index < t.symbols.size := (hs.matches_pairs ht .whole).within hab
  have hleft (d : JointStart p options items xs ys s t) := size_le_start d.left_mem
  have hright (d : JointStart p options items xs ys s t) := size_le_start d.right_mem
  rcases e.pairs_or_made hs ht hij with hpair | ⟨hmade, hmade'⟩
  · rcases e'.pairs_or_made hs ht hij' with hpair' | ⟨hmade, hmade'⟩
    · exact ⟨e, hij, e.block_of_pairs hs ht hpair'⟩
    · have := hold hpair
      have := hleft e'
      have := hright e'
      omega
  · rcases e'.pairs_or_made hs ht hij' with hpair' | ⟨hother, hother'⟩
    · have := hold hpair'
      have := hleft e
      have := hright e
      omega
    · by_cases hitem : e.item = e'.item
      · obtain ⟨x, u, v, hu, hv⟩ := e
        obtain ⟨y, u', v', hu', hv'⟩ := e'
        obtain rfl : x = y := hitem
        obtain rfl := starts_unique (hxs.nodup_iff.mpr hp.items_nodup) hu hu'
        obtain rfl := starts_unique (hys.nodup_iff.mpr hp.items_nodup) hv hv'
        exact ⟨_, hij, hij'⟩
      · have := starts_apart hitem e.left_mem e'.left_mem
        have := starts_apart hitem e.right_mem e'.right_mem
        simp only [leftEnd, rightEnd, registeredItem] at hi hi' hj hj'
        omega

end JointStart

section Merged

variable (hp : p.Unordered) (hxs : xs.Perm p.items) (hys : ys.Perm p.items)

def mergedPairs (options : Options) (items : List StmtId) : SymbolPairs :=
  .union (fun e : JointStart p options items xs ys s t => e.block hs ht) fun hk hl h =>
    JointStart.block_common hs ht _ hp hxs hys hk hl h

lemma merged_of_pairs {i j : SymbolId} (h : (hs.pairs ht).holds i j) :
    (mergedPairs hs ht hp hxs hys options items).holds i j := by
  obtain ⟨x, hx, hx'⟩ := h
  obtain ⟨hitem, -⟩ := hs.declared.mp (isSome_iff_exists.mpr ⟨i, hx⟩)
  obtain ⟨e, -⟩ := JointStart.exists_of_mem p options items s t (hxs.mem_iff.mpr hitem)
    (hys.mem_iff.mpr hitem)
  exact ⟨e, e.block_of_pairs hs ht ⟨x, hx, hx'⟩⟩

lemma exists_full {i j : SymbolId} (h : (mergedPairs hs ht hp hxs hys options items).holds i j) :
    ∃ e : JointStart p options items xs ys s t,
      (e.block hs ht).holds i j ∧ (ofItem p s e.item).full i := by
  obtain ⟨e, hij⟩ := h
  rcases e.pairs_or_new hs ht hij with ⟨x, hx, hx'⟩ | ⟨hnew, -⟩
  · obtain ⟨hitem, -⟩ := hs.declared.mp (isSome_iff_exists.mpr ⟨i, hx⟩)
    obtain ⟨d, rfl⟩ := JointStart.exists_of_mem p options items s t (hxs.mem_iff.mpr hitem)
      (hys.mem_iff.mpr hitem)
    exact ⟨d, d.block_of_pairs hs ht ⟨_, hx, hx'⟩, .inl hx⟩
  · exact ⟨e, hij, .inr hnew⟩

/-- Once all items are registered it makes no difference in which order they were. -/
lemma registers_whole : whole.Matches (mergedPairs hs ht hp hxs hys options items)
      (after (registerItem ⟨p, options⟩ s.symbolOf) xs s)
      (after (registerItem ⟨p.inOrder items, options⟩ t.symbolOf) ys t) := by
  have hbase := hs.matches_pairs ht .whole
  obtain ⟨hready, htouches⟩ := after_touches
    (registerItem_confined ⟨p, options⟩ s.symbols.size xs) hs.ready le_rfl
  obtain ⟨hready', htouches'⟩ := after_touches
    (registerItem_confined ⟨p.inOrder items, options⟩ t.symbols.size ys) ht.ready le_rfl
  have hitem {x : StmtId} (hx : x ∈ p.items) :
      ∃ e : JointStart p options items xs ys s t, e.item = x :=
    JointStart.exists_of_mem p options items s t (hxs.mem_iff.mpr hx) (hys.mem_iff.mpr hx)
  refine ⟨?_, fun _ => hready.plain _, fun {i j} hij => ?_, ⟨hready.root, hready'.root⟩,
    fun {name} _ => ?_, fun name => ⟨hready.calm name, hready'.calm name⟩, fun name => ?_,
    ⟨hready.contexts, hready'.contexts⟩, fun {id} _ => ?_⟩
  · rintro i j ⟨e, hij⟩
    exact (e.matches_end hs ht hp hxs hys).within hij
  · obtain ⟨e, hij, hfull⟩ := exists_full hs ht hp hxs hys hij
    exact transfer ((e.matches_end hs ht hp hxs hys).symbols hij) (fun _ => hfull)
      (hready.plain i) (holds_of_forall (fun i j h => ⟨e, h⟩) _)
  · by_cases hname : ∃ x ∈ p.items, name ∈ (p.stmt x).kind.valueNames
    · obtain ⟨x, hx, hname⟩ := hname
      obtain ⟨e, rfl⟩ := hitem hx
      exact rel_imp ((e.matches_end hs ht hp hxs hys).values hname) fun _ _ h => ⟨e, h⟩
    · have hnot {zs : List StmtId} (hzs : zs.Perm p.items) (named : StmtId → Option SymbolId) :
          name ∉ (all (p.footprint named) zs).names := by
        intro hmem
        obtain ⟨x, hx, hmem⟩ := mem_sum_map.mp hmem
        exact hname ⟨x, hzs.mem_iff.mp hx, hmem⟩
      rw [htouches.lookupValue (hnot hxs _), htouches'.lookupValue (hnot hys _), hs.values, ht.values]
      exact .none
  · rw [htouches.types, htouches'.types]
    exact rel_imp (hbase.types name) fun _ _ => merged_of_pairs hs ht hp hxs hys
  · by_cases hid : ∃ x ∈ p.items, id ∈ p.methodsOf x ∨ p.isFunction x = true ∧ id = x
    · obtain ⟨x, hx, hid⟩ := hid
      obtain ⟨e, rfl⟩ := hitem hx
      refine rel_imp ((e.matches_end hs ht hp hxs hys).declarations ?_) fun _ _ h => ⟨e, h⟩
      exact hid.symm.imp (·.2) Program.mem_stmtChildren_of_mem_methodsOf
    · have hnot {zs : List StmtId} (hzs : zs.Perm p.items) (named : StmtId → Option SymbolId) :
          ¬(all (p.footprint named) zs).declares id := by
        rintro ⟨x, hx, hdeclares⟩
        exact hid ⟨x, hzs.mem_iff.mp hx, hdeclares⟩
      rw [htouches.declarations (hnot hxs _), htouches'.declarations (hnot hys _)]
      exact rel_imp (hbase.declarations trivial) fun _ _ => merged_of_pairs hs ht hp hxs hys

end Merged

end Orders

end StaticTyping
