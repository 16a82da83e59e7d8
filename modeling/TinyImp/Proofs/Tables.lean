import Mathlib.Data.Finset.Card
import TinyImp.Proofs.ScopeEvents

/-! # Symbol tables after any declarations

A table has its names twice: in a list, which keeps their order, and in an index, which finds them.
Names may be declared again and again. Whatever is declared, the list and the index tell the same, and
both tell what was declared and when for the first time.
-/

namespace TinyImp.SymbolTable

/-- The table after a number of declarations. -/
def after (history : List String) : SymbolTable :=
  history.foldl (fun table name => (table.declare name).2) {}

/-- What each declaration keeps: the index has the listed names with their positions and no others, and
    the list has the declared names in the order of their first declarations. -/
structure Records (table : SymbolTable) (history : List String) : Prop where
  valid : table.Valid
  listed : ∀ name, name ∈ table.toList ↔ name ∈ history
  ordered : table.toList.Pairwise fun earlier later => history.idxOf earlier < history.idxOf later

/-- What a table tells of the declarations made in it, and how it takes another one. -/
structure Represents (table : SymbolTable) (history : List String) : Prop
    extends Records table history where
  nodup : table.toList.Nodup
  size : table.size = history.toFinset.card
  isEmpty : table.isEmpty ↔ history = []
  contains : ∀ name, table.contains name ↔ name ∈ history
  isNew : ∀ name, (table.declare name).1 ↔ name ∉ history
  unchanged : ∀ name ∈ history, (table.declare name).2 = table

variable {table : SymbolTable} {name : String} {history : List String}

namespace Records

theorem empty : Records {} [] where
  valid := valid_empty
  listed := by simp [toList]
  ordered := .nil

theorem contains_iff (records : table.Records history) (name : String) :
    table.contains name ↔ name ∈ history := by
  rw [records.valid.contains_iff, records.listed]

/-- Later declarations do not change which names came first. -/
theorem ordered_append (records : table.Records history) (name : String) :
    table.toList.Pairwise fun earlier later =>
      (history ++ [name]).idxOf earlier < (history ++ [name]).idxOf later := by
  apply records.ordered.imp_of_mem
  intro earlier later isListed isListed' before
  rw [records.listed] at isListed isListed'
  rwa [List.idxOf_append_of_mem isListed, List.idxOf_append_of_mem isListed']

theorem declare (records : table.Records history) (name : String) :
    (table.declare name).2.Records (history ++ [name]) := by
  by_cases declared : name ∈ history
  · rw [declare_of_contains ((records.contains_iff name).mpr declared)]
    refine ⟨records.valid, ?_, records.ordered_append name⟩
    intro other
    rw [records.listed, List.mem_append, List.mem_singleton]
    constructor
    · exact .inl
    · intro known
      rcases known with known | rfl
      · exact known
      · exact declared
  · have absent : ¬ table.contains name := by rwa [records.contains_iff]
    obtain ⟨after, answer⟩ := declare_of_not_contains absent
    obtain ⟨valid, listed⟩ := records.valid.declare answer
    rw [answer]
    refine ⟨valid, ?_, ?_⟩
    · intro other
      rw [listed, List.mem_append, List.mem_append, records.listed]
    · rw [listed]
      refine List.pairwise_append.mpr ⟨records.ordered_append name, List.pairwise_singleton _ _, ?_⟩
      intro earlier isListed last isLast
      obtain rfl := List.mem_singleton.mp isLast
      rw [records.listed] at isListed
      rw [List.idxOf_append_of_mem isListed, List.idxOf_append_of_notMem declared]
      have inside := List.idxOf_lt_length_of_mem isListed
      omega

theorem declares (records : table.Records history) (further : List String) :
    (further.foldl (fun table name => (table.declare name).2) table).Records (history ++ further) := by
  induction further generalizing table history with
  | nil =>
      rw [List.append_nil]
      exact records
  | cons name further ih =>
      rw [List.append_cons]
      exact ih (records.declare name)

theorem toFinset_eq (records : table.Records history) :
    table.toList.toFinset = history.toFinset := by
  ext name
  rw [List.mem_toFinset, List.mem_toFinset, records.listed]

theorem isEmpty_iff (records : table.Records history) : table.isEmpty ↔ history = [] := by
  have noneListed : table.isEmpty ↔ table.toList = [] := by
    rw [isEmpty, toList, Array.isEmpty_iff, Array.toList_eq_nil_iff]
  rw [noneListed, List.eq_nil_iff_forall_not_mem, List.eq_nil_iff_forall_not_mem]
  simp only [records.listed]

theorem represents (records : table.Records history) : table.Represents history where
  toRecords := records
  nodup := records.valid.nodup
  size := by
    rw [← records.toFinset_eq, List.toFinset_card_of_nodup records.valid.nodup]
    rfl
  isEmpty := records.isEmpty_iff
  contains := records.contains_iff
  isNew := by
    intro name
    rw [← records.contains_iff]
    by_cases contained : table.contains name
    · simp [declare_of_contains contained, contained]
    · obtain ⟨after, answer⟩ := declare_of_not_contains contained
      simp [answer, contained]
  unchanged := by
    intro name declared
    rw [declare_of_contains ((records.contains_iff name).mpr declared)]

end Records

end TinyImp.SymbolTable

namespace TinyImp

/-- After any declarations, of new names and of known ones, the list and the index of the table agree
    with each other and with what was declared, and only a new name changes the table. -/
theorem symbol_table_represents_declarations (history : List String) :
    (SymbolTable.after history).Represents history :=
  (SymbolTable.Records.empty.declares history).represents

end TinyImp
