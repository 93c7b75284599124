import ShardedSql.Proofs.Distinct
import ShardedSql.Proofs.Success
import ShardedSql.Rule.Table

/-! Which data nodes the expression of a table declares. An entry is read as a node just when it is two
names around its only dot, and nodes read so are told apart by their text. -/

namespace ShardedSql

namespace DataNode

variable {n m : DataNode}

/-- Both names are there, and no dot is in them. -/
structure Plain (n : DataNode) : Prop where
  source_ne : n.dataSource ≠ ""
  table_ne : n.table ≠ ""
  source_dotless : '.' ∉ n.dataSource.toList
  table_dotless : '.' ∉ n.table.toList

theorem takeWhile_dotless {source : List Char} (h : '.' ∉ source) (table : List Char) :
    (source ++ '.' :: table).takeWhile (· != '.') = source ∧
      (source ++ '.' :: table).dropWhile (· != '.') = '.' :: table := by
  have hall : ∀ c ∈ source, (c != '.') = true := fun c hc => bne_iff_ne.2 fun he => h (he ▸ hc)
  constructor
  · rw [List.takeWhile_append_of_pos hall]
    simp
  · rw [List.dropWhile_append_of_pos hall]
    simp

theorem toList_text (n : DataNode) : n.text.toList = n.dataSource.toList ++ '.' :: n.table.toList := by
  simp [text]

theorem Plain.eq_of_text (hn : n.Plain) (hm : m.Plain) (h : n.text = m.text) : n = m := by
  have hlist := congrArg String.toList h
  rw [toList_text, toList_text] at hlist
  obtain ⟨hnSource, hnTable⟩ := takeWhile_dotless hn.source_dotless n.table.toList
  obtain ⟨hmSource, hmTable⟩ := takeWhile_dotless hm.source_dotless m.table.toList
  rw [hlist] at hnSource hnTable
  have hsource := String.toList_inj.1 (hnSource.symm.trans hmSource)
  have htable := String.toList_inj.1 (List.cons.inj (hnTable.symm.trans hmTable)).2
  cases n
  cases m
  cases hsource
  cases htable
  rfl

/-- The text is read as a node just when it is the node's own text, blanks around it aside. -/
theorem parse?_eq_some {s : String} : parse? s = some n ↔ n.Plain ∧ Text.trim s = n.text := by
  have htrim : Text.trim s = n.text ↔
      Text.trimChars s.toList = n.dataSource.toList ++ '.' :: n.table.toList := by
    rw [← String.toList_inj, Text.trim, String.toList_ofList, toList_text]
  rw [htrim]
  unfold parse?
  dsimp only
  constructor
  · intro h
    split at h
    · cases h
    · rename_i c table hrest
      split at h
      · cases h
      · rename_i hnone
        cases h
        simp only [Bool.or_eq_true, List.isEmpty_iff, List.contains_iff_mem, not_or] at hnone
        have hdot : c = '.' := by
          have hhead := List.head?_dropWhile_not (· != '.') (Text.trimChars s.toList)
          rw [hrest] at hhead
          simpa using hhead
        refine ⟨⟨?_, ?_, ?_, ?_⟩, ?_⟩
        · simpa using hnone.1.1
        · simpa using hnone.1.2
        · rw [String.toList_ofList]
          intro hmem
          simpa using List.all_eq_true.1 List.all_takeWhile _ hmem
        · simpa using hnone.2
        · rw [hdot] at hrest
          rw [String.toList_ofList, String.toList_ofList, ← hrest, List.takeWhile_append_dropWhile]
  · rintro ⟨hplain, hcs⟩
    obtain ⟨hsource, htable⟩ := takeWhile_dotless hplain.source_dotless n.table.toList
    rw [hcs, hsource, htable]
    have hnone : ¬ (n.dataSource.toList.isEmpty || n.table.toList.isEmpty ||
        n.table.toList.contains '.') = true := by
      simp [hplain.source_ne, hplain.table_ne, hplain.table_dotless]
    dsimp only
    rw [if_neg hnone, String.ofList_toList, String.ofList_toList]

end DataNode

namespace TableRule

variable {table expression : String} {rule : TableRule}

/-- The nodes that the entries of an expression are read as, each once. -/
def Expands (expression : String) (nodes : List DataNode) : Prop :=
  ∃ entries parsed, Declaration.expand .none expression = .ok entries ∧
    List.Forall₂ (fun entry n => DataNode.parse? entry = some n) entries parsed ∧ nodes = distinct parsed

theorem node_eq_ok {entry : String} {n : DataNode} :
    node table entry = .ok n ↔ DataNode.parse? entry = some n := by
  unfold node
  cases DataNode.parse? entry <;> simp

theorem distinctOn_text {entries : List String} {parsed : List DataNode}
    (h : List.Forall₂ (fun entry n => DataNode.parse? entry = some n) entries parsed) :
    distinctOn DataNode.text parsed = distinct parsed := by
  have hplain : ∀ n ∈ parsed, n.Plain := by
    intro n hn
    obtain ⟨entry, -, hentry⟩ := exists_of_mem_right h hn
    exact (DataNode.parse?_eq_some.1 hentry).1
  exact distinctOn_eq_distinct fun n hn m hm => (hplain n hn).eq_of_text (hplain m hm)

/-- A table rule is made just when the expression expands to some nodes; it has nothing else yet. -/
theorem ofExpression_eq_ok : ofExpression table expression = .ok rule ↔
    Expands expression rule.nodes ∧ rule = ⟨table, rule.nodes, none, none, none, rule.nodes_ne_nil⟩ := by
  have hnodes : ∀ nodes, ofNodes table nodes = .ok rule ↔
      rule.nodes = nodes ∧ rule = ⟨table, rule.nodes, none, none, none, rule.nodes_ne_nil⟩ := by
    intro nodes
    unfold ofNodes
    split
    · rename_i hnil
      exact iff_of_false nofun fun h => rule.nodes_ne_nil (h.1.trans hnil)
    · constructor
      · intro h
        cases h
        exact ⟨rfl, rfl⟩
      · rintro ⟨rfl, h⟩
        rw [← h]
  unfold ofExpression Expands
  cases Declaration.expand .none expression with
  | error e => simp
  | ok entries =>
    simp only [bind_eq_ok, mapM_eq_ok, node_eq_ok, hnodes, Except.ok.injEq]
    constructor
    · rintro ⟨parsed, hparsed, hsame, hrule⟩
      exact ⟨⟨entries, parsed, rfl, hparsed, hsame.trans (distinctOn_text hparsed)⟩, hrule⟩
    · rintro ⟨⟨_, parsed, rfl, hparsed, hsame⟩, hrule⟩
      exact ⟨parsed, hparsed, hsame.trans (distinctOn_text hparsed).symm, hrule⟩

end TableRule

end ShardedSql
