/-!
# Tables in ascending order of their keys

The proxies of a configuration are selected by key and worked through in the
order of the keys.  A table is the list of its entries in that order, each key
once; the order is part of the type, so that two tables with the same entries
are equal.
-/

namespace ProxyTiming

/-- Entries in ascending order of their keys. -/
@[ext] structure Table (α : Type) where
  entries : List (String × α)
  ascending : entries.Pairwise fun a b => a.1 < b.1

namespace Table

variable {α : Type}

instance [DecidableEq α] : DecidableEq (Table α) := fun a b =>
  decidable_of_iff (a.entries = b.entries) ⟨Table.ext, fun h => h ▸ rfl⟩

def empty : Table α := ⟨[], .nil⟩

def isEmpty (t : Table α) : Bool := t.entries.isEmpty

def find? (t : Table α) (key : String) : Option α :=
  (t.entries.find? fun e => e.1 == key).map Prod.snd

def insertEntry (key : String) (a : α) : List (String × α) → List (String × α)
  | [] => [(key, a)]
  | (k, b) :: rest =>
    if key < k then (key, a) :: (k, b) :: rest
    else if key = k then (key, a) :: rest
    else (k, b) :: insertEntry key a rest

theorem eq_or_mem_of_mem_insertEntry {key : String} {a : α} {l : List (String × α)}
    {e : String × α} (h : e ∈ insertEntry key a l) : e = (key, a) ∨ e ∈ l := by
  induction l with
  | nil => exact .inl (List.mem_singleton.1 h)
  | cons first rest ih =>
    unfold insertEntry at h
    split at h
    · exact List.mem_cons.1 h
    · split at h
      · exact (List.mem_cons.1 h).imp_right (List.mem_cons_of_mem _)
      · rcases List.mem_cons.1 h with h | h
        · exact .inr (h ▸ List.mem_cons_self)
        · exact (ih h).imp_right (List.mem_cons_of_mem _)

/-- A key behind all others is added at the end. -/
theorem insertEntry_of_lt {key : String} (a : α) {l : List (String × α)}
    (h : ∀ e ∈ l, e.1 < key) : insertEntry key a l = l ++ [(key, a)] := by
  induction l with
  | nil => rfl
  | cons first rest ih =>
    have hfirst := h first List.mem_cons_self
    have hnot : ¬ key < first.1 := fun hlt => String.lt_irrefl key (String.lt_trans hlt hfirst)
    have hne : key ≠ first.1 := fun heq => String.lt_irrefl key (heq ▸ hfirst)
    unfold insertEntry
    rw [if_neg hnot, if_neg hne, ih fun e he => h e (List.mem_cons_of_mem _ he)]
    rfl

theorem ascending_insertEntry (key : String) (a : α) {l : List (String × α)}
    (h : l.Pairwise fun a b => a.1 < b.1) :
    (insertEntry key a l).Pairwise fun a b => a.1 < b.1 := by
  induction l with
  | nil => exact List.pairwise_singleton _ _
  | cons first rest ih =>
    obtain ⟨h₁, h₂⟩ := List.pairwise_cons.1 h
    unfold insertEntry
    split
    · next hlt =>
      refine List.pairwise_cons.2 ⟨fun e he => ?_, h⟩
      rcases List.mem_cons.1 he with he | he
      · exact he ▸ hlt
      · exact String.lt_trans hlt (h₁ e he)
    · next hge =>
      split
      · next heq => exact List.pairwise_cons.2 ⟨fun e he => heq ▸ h₁ e he, h₂⟩
      · next hne =>
        refine List.pairwise_cons.2 ⟨fun e he => ?_, ih h₂⟩
        rcases eq_or_mem_of_mem_insertEntry he with rfl | he
        · refine Decidable.byContradiction fun hnot => hne ?_
          exact String.le_antisymm hnot hge
        · exact h₁ e he

/-- The table with one more entry; a value of the same key is replaced. -/
def insert (t : Table α) (key : String) (a : α) : Table α :=
  ⟨insertEntry key a t.entries, ascending_insertEntry key a t.ascending⟩

/-- A table is its entries, added in their order. -/
theorem foldl_insert (t : Table α) :
    t.entries.foldl (fun t e => t.insert e.1 e.2) empty = t := by
  have hfold (done more : List (String × α)) (h : (done ++ more).Pairwise fun a b => a.1 < b.1)
      (t : Table α) (ht : t.entries = done) :
      (more.foldl (fun t e => t.insert e.1 e.2) t).entries = done ++ more := by
    induction more generalizing done t with
    | nil => rw [List.append_nil]; exact ht
    | cons e more ih =>
      have hlast : ∀ d ∈ done, d.1 < e.1 := fun d hd =>
        (List.pairwise_append.1 h).2.2 d hd e List.mem_cons_self
      have hinsert : (t.insert e.1 e.2).entries = done ++ [e] := by
        change insertEntry e.1 e.2 t.entries = done ++ [e]
        rw [ht]
        exact insertEntry_of_lt e.2 hlast
      rw [List.append_cons] at h ⊢
      exact ih (done ++ [e]) h _ hinsert
  exact Table.ext (hfold [] t.entries t.ascending empty rfl)

end Table

end ProxyTiming
