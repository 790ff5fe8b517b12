import CellScript.Checker.Record

/-!
# Call chains of an accepted record

The call graph check bounds the chains of calls between different entries and rejects every cycle
that passes through two of them. A call edge whose two blocks have the same owner never enters the
graph, so an entry that calls itself is accepted under every budget:
`validateRecordGraph_callChains_iff` says that this is the only way in which a chain of an accepted
record can be too long.
-/

namespace CellScript.Checker

open Relation (TransGen)
open DepthSearch

variable {record : VerifiedLoweringRecord} {budgets : CheckerBudgets} {maxDepth : UInt32}
  {rest chain : List String} {memo memo' : Memo String} {entry caller callee : String}

/-! ### What an accepted record satisfies -/

/-- The checks of `validateRecordGraph`, as facts about the record. -/
structure RecordGraph (record : VerifiedLoweringRecord) (budgets : CheckerBudgets) : Prop where
  entries_ne_nil : record.entries ≠ []
  entries_sorted : strictlySorted (record.entries.map (·.id)) = true
  blocks_sorted : strictlySorted (record.blocks.map (·.id)) = true
  entries : ∀ entry ∈ record.entries, validateEntry record budgets entry = .ok ()
  blocks : record.blocks.foldlM (validateBlock record budgets) record.textRange.start
    = .ok record.textRange.stop
  edges : ∀ edge ∈ record.edges, validateEdge record edge = .ok ()
  terminators : ∀ block ∈ record.blocks,
    validateTerminatorEdges block (record.outgoing block.id) = .ok ()
  callGraph : validateCallGraph record budgets.callDepth = .ok ()

theorem sorted_of_ensureSortedUnique {α : Type} {values : List α} {key : α → String}
    {label : String} (h : ensureSortedUnique values key label = .ok ()) :
    strictlySorted (values.map key) = true :=
  (ite_ok_iff.1 h).1

theorem recordGraph_of_validate (h : validateRecordGraph record budgets = .ok ()) :
    RecordGraph record budgets := by
  unfold validateRecordGraph at h
  obtain ⟨hempty, h⟩ := guard_ok.1 h
  obtain ⟨⟨⟩, hentries, h⟩ := bind_ok.1 h
  obtain ⟨⟨⟩, hblocks, h⟩ := bind_ok.1 h
  obtain ⟨⟨⟩, -, h⟩ := bind_ok.1 h
  obtain ⟨-, h⟩ := guard_ok.1 h
  obtain ⟨⟨⟩, hentry, h⟩ := bind_ok.1 h
  obtain ⟨⟨⟩, -, h⟩ := bind_ok.1 h
  obtain ⟨-, h⟩ := guard_ok.1 h
  obtain ⟨⟨⟩, -, h⟩ := bind_ok.1 h
  obtain ⟨stop, hblock, h⟩ := bind_ok.1 h
  obtain ⟨hstop, h⟩ := guard_ok.1 h
  obtain ⟨⟨⟩, hedges, h⟩ := bind_ok.1 h
  obtain ⟨⟨⟩, hterminators, h⟩ := bind_ok.1 h
  obtain ⟨⟨⟩, -, hcalls⟩ := bind_ok.1 h
  obtain rfl : stop = record.textRange.stop := not_not.1 hstop
  exact {
    entries_ne_nil := by
      intro hnil
      simp [hnil] at hempty
    entries_sorted := sorted_of_ensureSortedUnique hentries
    blocks_sorted := sorted_of_ensureSortedUnique hblocks
    entries := forM_ok_iff.1 hentry
    blocks := hblock
    edges := forM_ok_iff.1 hedges
    terminators := forM_ok_iff.1 hterminators
    callGraph := hcalls }

/-- The owner of a block is an entry of the record. -/
theorem RecordGraph.owner_mem (h : RecordGraph record budgets) {id owner : String}
    (howner : record.owner id = some owner) : owner ∈ record.entries.map (·.id) := by
  obtain ⟨block, hblock, rfl⟩ := map_eq_some_iff.1 howner
  obtain ⟨s, t, hstep⟩ := Except.exists_step_of_foldlM h.blocks (mem_of_find?_eq_some hblock)
  unfold validateBlock at hstep
  split at hstep
  · exact nomatch hstep
  · next entry hentry =>
    have hid : entry.id = block.ownerEntry := by simpa using find?_some hentry
    exact mem_map.2 ⟨entry, mem_of_find?_eq_some hentry, hid⟩

/-- An edge leaves a block of the record. -/
theorem RecordGraph.owner_isSome (h : RecordGraph record budgets) {edge : LoweringEdge}
    (hedge : edge ∈ record.edges) : (record.owner edge.fromBlock).isSome := by
  have hok := h.edges edge hedge
  unfold validateEdge at hok
  split at hok
  · exact nomatch hok
  · next hsome =>
    unfold VerifiedLoweringRecord.owner
    rw [Bool.or_eq_true, not_or, Option.isNone_iff_eq_none] at hsome
    rw [Option.isSome_map]
    exact Option.isSome_iff_ne_none.2 hsome.1

/-! ### Calls between entries -/

/-- A call edge leaves a block of the first entry and reaches a block of the second. -/
def Calls (record : VerifiedLoweringRecord) (caller callee : String) : Prop :=
  ∃ edge ∈ record.edges, edge.kind = .call ∧ record.owner edge.fromBlock = some caller ∧
    record.owner edge.toBlock = some callee

/-- **The graph of the check has the calls between different entries.** -/
theorem mem_callees_iff :
    callee ∈ callees record caller ↔ Calls record caller callee ∧ caller ≠ callee := by
  unfold callees Calls
  simp only [List.mem_insertionSort, List.mem_dedup, mem_filterMap, List.mem_filter,
    decide_eq_true_eq]
  constructor
  · rintro ⟨edge, ⟨hmem, hkind⟩, hedge⟩
    obtain ⟨a, ha, hedge⟩ := bind_eq_some_iff.1 hedge
    obtain ⟨b, hb, hedge⟩ := bind_eq_some_iff.1 hedge
    split at hedge
    · next hne =>
      obtain rfl := some.inj hedge
      obtain ⟨hne, rfl⟩ := hne
      exact ⟨⟨edge, hmem, hkind, ha, hb⟩, hne⟩
    · exact nomatch hedge
  · rintro ⟨⟨edge, hmem, hkind, ha, hb⟩, hne⟩
    refine ⟨edge, ⟨hmem, hkind⟩, ?_⟩
    simp [ha, hb, hne]

theorem RecordGraph.callee_mem (h : RecordGraph record budgets)
    (hcall : callee ∈ callees record caller) : callee ∈ record.entries.map (·.id) := by
  obtain ⟨⟨edge, -, -, -, hto⟩, -⟩ := mem_callees_iff.1 hcall
  exact h.owner_mem hto

/-- **The bound on the calls is never what ends the search**, if every callee is an entry. -/
theorem deepestCallDepth_of_le {calls : ℕ}
    (hcallee : ∀ a, ∀ b ∈ callees record a, b ∈ record.entries.map (·.id))
    (hentry : entry ∈ record.entries.map (·.id)) (hcalls : record.entries.length ≤ calls) :
    deepestCallDepth record calls entry [] memo
      = deepestCallDepth record record.entries.length entry [] memo := by
  rw [← length_map (·.id)] at hcalls ⊢
  exact deepest_of_le hcallee hentry hcalls

/-! ### What the check of the roots says -/

/-- A bound on the chains below an entry, within the budget. -/
def WithinBudget (record : VerifiedLoweringRecord) (maxDepth : UInt32) (entry : String) : Prop :=
  ∃ n, Below (fun a b ↦ b ∈ callees record a) n entry ∧
    min (n + 1) (2 ^ 32 - 1) ≤ maxDepth.toNat

theorem withinBudget_of_validateRoot {root : LoweringEntry}
    (h : validateRoot record maxDepth memo root = .ok memo')
    (hmemo : Settled (callees record) (2 ^ 32 - 1) memo) :
    Settled (callees record) (2 ^ 32 - 1) memo' ∧
      WithinBudget record maxDepth root.id := by
  obtain ⟨⟨depth, memo₁⟩, hsearch, h⟩ := bind_ok.1 h
  obtain ⟨hbudget, h⟩ := guard_ok.1 h
  obtain rfl : memo₁ = memo' := by simpa using h
  obtain ⟨hmemo₁, n, rfl, hn⟩ := deepest_sound hsearch hmemo
  unfold saturatingAdd32 at hbudget
  exact ⟨hmemo₁, n, hn, by omega⟩

theorem withinBudget_of_foldlM {roots : List LoweringEntry}
    (h : roots.foldlM (validateRoot record maxDepth) memo = .ok memo')
    (hmemo : Settled (callees record) (2 ^ 32 - 1) memo) :
    ∀ root ∈ roots, WithinBudget record maxDepth root.id := by
  induction roots generalizing memo with
  | nil => exact fun root hroot ↦ absurd hroot not_mem_nil
  | cons root roots ih =>
    rw [foldlM_cons, bind_ok] at h
    obtain ⟨memo₁, hroot, h⟩ := h
    obtain ⟨hmemo₁, hbudget⟩ := withinBudget_of_validateRoot hroot hmemo
    exact forall_mem_cons.2 ⟨hbudget, ih h hmemo₁⟩

namespace RecordGraph

variable (h : RecordGraph record budgets)
include h

theorem withinBudget (hentry : entry ∈ record.entries.map (·.id)) :
    WithinBudget record budgets.callDepth entry := by
  obtain ⟨memo, hfold, -⟩ := bind_ok.1 h.callGraph
  obtain ⟨root, hroot, rfl⟩ := mem_map.1 hentry
  exact withinBudget_of_foldlM hfold settled_empty root hroot

/-- **No cycle passes through two entries.** -/
theorem not_transGen_callees (entry : String) :
    ¬TransGen (fun a b ↦ b ∈ callees record a) entry entry := by
  intro hcycle
  obtain ⟨_, -, hlast⟩ := Relation.TransGen.tail'_iff.1 hcycle
  obtain ⟨n, hn, -⟩ := h.withinBudget (h.callee_mem hlast)
  exact hn.not_transGen_self hcycle

theorem subset_of_isChain (hchain : (entry :: rest).IsChain fun a b ↦ b ∈ callees record a) :
    rest ⊆ record.entries.map (·.id) := by
  induction rest generalizing entry with
  | nil => exact List.nil_subset _
  | cons callee rest ih =>
    rw [List.isChain_cons_cons] at hchain
    exact List.cons_subset.2 ⟨h.callee_mem hchain.1, ih hchain.2⟩

variable (hsize : budgets.callDepth.toNat < 2 ^ 32 - 1 ∨ record.entries.length < 2 ^ 32)
include hsize

/-- **Chains between different entries stay within the budget.** The depth saturates, so the bound
under the largest budget comes from the number of entries. -/
theorem length_le (hentry : entry ∈ record.entries.map (·.id))
    (hchain : (entry :: rest).IsChain fun a b ↦ b ∈ callees record a) :
    rest.length + 1 ≤ budgets.callDepth.toNat := by
  obtain ⟨n, hn, hbudget⟩ := h.withinBudget hentry
  have hlength := hn.length_le hchain
  have hnodup := nodup_of_isChain h.not_transGen_callees hchain
  have hsub : (entry :: rest) ⊆ record.entries.map (·.id) :=
    List.cons_subset.2 ⟨hentry, h.subset_of_isChain hchain⟩
  have hentries := (hnodup.subperm hsub).length_le
  rw [length_cons, length_map] at hentries
  omega

/-- The same for every chain, whether it starts at an entry or consists of one name only. -/
theorem chain_length_le (hchain : chain.IsChain fun a b ↦ b ∈ callees record a) :
    chain.length ≤ budgets.callDepth.toNat := by
  match chain with
  | [] => exact Nat.zero_le _
  | [entry] =>
    obtain ⟨root, roots, hroots⟩ := List.exists_cons_of_ne_nil h.entries_ne_nil
    have hroot : root.id ∈ record.entries.map (·.id) := by simp [hroots]
    exact h.length_le hsize hroot (List.isChain_singleton _)
  | entry :: callee :: rest =>
    obtain ⟨⟨edge, -, -, hfrom, -⟩, -⟩ := mem_callees_iff.1 (List.isChain_cons_cons.1 hchain).1
    exact h.length_le hsize (h.owner_mem hfrom) hchain

end RecordGraph

/-! ### The bound on call chains -/

/-- **The budget bounds the call chains of an accepted record exactly when no entry calls itself.**
Every chain of call edges has at most as many entries as the budget allows, and there is no cycle,
if and only if no call edge joins two blocks of one entry. Under the largest budget of all the
depth saturates, and the record must have fewer than `2 ^ 32` entries. -/
theorem validateRecordGraph_callChains_iff (h : validateRecordGraph record budgets = .ok ())
    (hsize : budgets.callDepth.toNat < 2 ^ 32 - 1 ∨ record.entries.length < 2 ^ 32) :
    ((∀ chain : List String, chain.IsChain (Calls record) →
        chain.length ≤ budgets.callDepth.toNat) ∧
      ∀ entry, ¬TransGen (Calls record) entry entry) ↔
    ∀ edge ∈ record.edges, edge.kind = .call →
      record.owner edge.fromBlock ≠ record.owner edge.toBlock := by
  have hgraph := recordGraph_of_validate h
  constructor
  · rintro ⟨-, hacyclic⟩ edge hmem hkind heq
    obtain ⟨a, ha⟩ := isSome_iff_exists.1 (hgraph.owner_isSome hmem)
    exact hacyclic a (.single ⟨edge, hmem, hkind, ha, heq ▸ ha⟩)
  · intro hself
    have hcalls : ∀ a b, Calls record a b → b ∈ callees record a := by
      intro a b hab
      refine mem_callees_iff.2 ⟨hab, ?_⟩
      rintro rfl
      obtain ⟨edge, hmem, hkind, hfrom, hto⟩ := hab
      exact hself edge hmem hkind (hfrom.trans hto.symm)
    refine ⟨fun chain hchain ↦ hgraph.chain_length_le hsize (hchain.imp hcalls), ?_⟩
    intro entry hcycle
    exact hgraph.not_transGen_callees entry (Relation.TransGen.mono hcalls _ _ hcycle)

/-- The record of helpers that consist of a call and a return. -/
def callingRecord (names : List String) (calls : List (String × String)) :
    VerifiedLoweringRecord where
  entries := names.map fun name ↦ ⟨"helper:" ++ name, name, name, [], "unit", [], [], 0, 0⟩
  blocks := names.zipIdx.map fun (name, i) ↦
    { id := name, ownerEntry := "helper:" ++ name, reachable := true, terminator := .return,
      range := ⟨12 * i, 12 * i + 12⟩, frameSizeBytes := 0, outgoingArgumentBytes := 0,
      stackSlots := [], scratchRegisterAvoid := [], capabilities := [], proofIds := [] }
  edges := calls.map fun (caller, callee) ↦ ⟨caller, callee, .call⟩
  proofRecords := []
  runtimeErrorExits := []
  textRange := ⟨0, 12 * names.length⟩

/-- The depth and the frame size of `CheckerBudgets::default`. -/
def defaultBudgets : CheckerBudgets := ⟨256, 1024 * 1024⟩

/-- Three helpers in a row. -/
theorem validateRecordGraph_callChains_iff_threeHelpers :
    validateRecordGraph (callingRecord ["f", "g", "h"] [("f", "g"), ("g", "h")]) defaultBudgets
        = .ok () ∧
      ∀ chain : List String,
        chain.IsChain (Calls (callingRecord ["f", "g", "h"] [("f", "g"), ("g", "h")])) →
          chain.length ≤ 256 := by
  have haccepted : validateRecordGraph (callingRecord ["f", "g", "h"] [("f", "g"), ("g", "h")])
      defaultBudgets = .ok () := by decide +kernel
  refine ⟨haccepted, ?_⟩
  exact ((validateRecordGraph_callChains_iff haccepted (.inl (by decide))).2 (by decide +kernel)).1

/-- **A helper that calls itself is accepted**, and its call chains pass every budget. -/
theorem selfCall_accepted :
    validateRecordGraph (callingRecord ["f"] [("f", "f")]) defaultBudgets = .ok () ∧
      ∃ chain : List String, chain.IsChain (Calls (callingRecord ["f"] [("f", "f")])) ∧
        defaultBudgets.callDepth.toNat < chain.length := by
  refine ⟨by decide +kernel, replicate 257 "helper:f", ?_, by decide +kernel⟩
  have hcall : Calls (callingRecord ["f"] [("f", "f")]) "helper:f" "helper:f" :=
    ⟨⟨"f", "f", .call⟩, by decide +kernel, rfl, by decide +kernel, by decide +kernel⟩
  exact List.isChain_replicate_of_rel 257 hcall

end CellScript.Checker
