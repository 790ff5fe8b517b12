import CellScript.Library.Unique
import CellScript.Policy.OpenHandle

/-!
# Membership in an authorization set

What a set accepted by `AuthorizationSet.new` admits. The records determine their headers and
members (`PolicyHeader.decode_encode`, `PolicyMember.decode_encode`), the tree leads every member to
the root, and, as far as the hash function does not collide on the strings that are hashed, nothing
but a member of the set leads there.
-/

namespace CellScript.OpenHandlePolicy

open Bytes (le ofLe field)
open HeapTree List

/-! ### Reading records -/

variable {parts : List (List UInt8)}

/-- The rules that read a record part by part. -/
theorem reading_rules :
    (∀ {part : List UInt8} {len}, part.length = len → field 0 len (part :: parts).flatten = part) ∧
    (∀ {part : List UInt8} {start len}, part.length ≤ start →
      field start len (part :: parts).flatten = field (start - part.length) len parts.flatten) ∧
    (∀ {b : UInt8}, byteAt ([b] :: parts).flatten 0 = b) ∧
    ∀ {part : List UInt8} {start}, part.length ≤ start →
      byteAt (part :: parts).flatten start = byteAt parts.flatten (start - part.length) := by
  refine ⟨Bytes.field_flatten_cons, Bytes.field_flatten_cons_of_le, rfl, fun h ↦ ?_⟩
  rw [flatten_cons, byteAt, byteAt, getD_append_right _ _ _ _ h]

@[simp] theorem ofNat_ofLe_le_u64 (n : UInt64) : UInt64.ofNat (ofLe (le 8 n.toNat)) = n := by
  rw [Bytes.ofLe_le_of_lt n.toNat_lt, UInt64.ofNat_toNat]

@[simp] theorem ofNat_ofLe_le_u32 (n : UInt32) : UInt32.ofNat (ofLe (le 4 n.toNat)) = n := by
  rw [Bytes.ofLe_le_of_lt n.toNat_lt, UInt32.ofNat_toNat]

@[simp] theorem length_headerMagic : headerMagic.length = 8 := by decide +kernel

@[simp] theorem length_memberMagic : memberMagic.length = 8 := by decide +kernel

@[simp] theorem length_selectionMagic : selectionMagic.length = 8 := by decide +kernel

@[simp] theorem HandleClass.ofTag_tag (c : HandleClass) : ofTag c.tag = .ok c := by
  cases c <;> rfl

@[simp] theorem ScriptRole.ofTag_tag (r : ScriptRole) : ofTag r.tag = .ok r := by
  cases r <;> rfl

@[simp] theorem SelectionMode.ofTag_tag (m : SelectionMode) : ofTag m.tag = .ok m := by
  cases m <;> rfl

@[simp] theorem MemberStatus.ofTag_tag (s : MemberStatus) : ofTag s.tag = .ok s := by
  cases s <;> rfl

@[simp] theorem CodeHashType.ofTag_tag (t : CodeHashType) : ofTag t.tag = .ok t := by
  cases t <;> rfl

variable {header : PolicyHeader} {bytes : List UInt8}

namespace PolicyHeader

variable {header' : PolicyHeader}

@[simp] theorem length_flatten_parts : header.parts.flatten.length = headerBytes := by
  simp [parts, headerBytes]

theorem encode_ok_iff :
    header.encode = .ok bytes ↔ header.validate = .ok () ∧ header.parts.flatten = bytes := by
  rw [encode, check_ok, pure_ok]

/-- **A header is read back from its record.** -/
theorem decode_encode (h : header.encode = .ok bytes) : decode bytes = .ok header := by
  obtain ⟨hvalid, rfl⟩ := encode_ok_iff.1 h
  rw [decode, if_neg (not_not.2 length_flatten_parts)]
  simp (disch := simp) [parts, hashAt, u64At, reading_rules, -flatten_cons]
  exact ⟨(), hvalid⟩

theorem eq_of_encode_eq (h : header.encode = .ok bytes) (h' : header'.encode = .ok bytes) :
    header = header' :=
  ok.inj ((decode_encode h).symm.trans (decode_encode h'))

end PolicyHeader

open PolicyHeader

namespace PolicyMember

variable {member member' : PolicyMember}

@[simp] theorem length_flatten_parts : member.parts.flatten.length = memberBytes := by
  simp [parts, memberBytes]

theorem encode_ok_iff :
    member.encode = .ok bytes ↔ member.validate = .ok () ∧ member.parts.flatten = bytes := by
  rw [encode, check_ok, pure_ok]

/-- **A member is read back from its record.** -/
theorem decode_encode (h : member.encode = .ok bytes) : decode bytes = .ok member := by
  obtain ⟨hvalid, rfl⟩ := encode_ok_iff.1 h
  rw [decode, if_neg (not_not.2 length_flatten_parts)]
  simp (disch := simp) [parts, hashAt, u64At, u32At, reading_rules, -flatten_cons]
  exact ⟨(), hvalid⟩

theorem eq_of_encode_eq (h : member.encode = .ok bytes) (h' : member'.encode = .ok bytes) :
    member = member' :=
  ok.inj ((decode_encode h).symm.trans (decode_encode h'))

end PolicyMember

/-! ### What is hashed -/

variable {hash : List UInt8 → Hash}

section Preimages

variable {a b c d r r' : Hash}

theorem nodePreimage_inj (h : nodePreimage a b = nodePreimage c d) : a = c ∧ b = d := by
  obtain ⟨hac, hbd⟩ := append_inj (append_cancel_left h) (by simp)
  exact ⟨Hash.ext hac, Hash.ext hbd⟩

theorem leafPreimage_inj {i j : UInt8} {m n : List UInt8}
    (h : leafPreimage i m = leafPreimage j n) : m = n :=
  (append_inj (append_cancel_left h) rfl).2

theorem policyRootPreimage_inj {h h' : List UInt8} (hlen : h.length = h'.length)
    (heq : policyRootPreimage h r = policyRootPreimage h' r') : h = h' ∧ r = r' := by
  obtain ⟨hh, hr⟩ := append_inj (append_cancel_left heq) hlen
  exact ⟨hh, Hash.ext hr⟩

/-- The strings that are hashed when a set is built. -/
def AuthorizationSet.preimages (set : AuthorizationSet) : List (List UInt8) :=
  set.members.zipIdx.map (fun (member, index) ↦
      leafPreimage (UInt8.ofNat index) member.parts.flatten) ++
    (List.range' set.members.length (maxMembers - set.members.length)).map (fun index ↦
      emptyLeafPreimage (UInt8.ofNat index)) ++
    (List.range' 1 (2 ^ treeDepth - 1)).map (fun i ↦
      nodePreimage (set.tree (2 * i)) (set.tree (2 * i + 1))) ++
    [policyRootPreimage set.header.parts.flatten (set.tree 1)]

/-- The strings that are hashed when a witness is verified. -/
def selectionPreimages (hash : List UInt8 → Hash) (bytes : List UInt8) : List (List UInt8) :=
  match PolicyHeader.decode (field 8 188 bytes), PolicyMember.decode (field 196 292 bytes) with
  | .ok header, .ok member =>
    let index := byteAt bytes 488
    let leaf := leaf hash index member.parts.flatten
    leafPreimage index member.parts.flatten ::
      (pairs (node hash) index.toNat leaf (witnessSiblings bytes)).map (fun p ↦
        nodePreimage p.1 p.2) ++
      [policyRootPreimage header.parts.flatten
        (climb (node hash) index.toNat leaf (witnessSiblings bytes))]
  | _, _ => []

/-- The verifier's walk is the walk up the tree. -/
theorem climbRoot_eq_climb (index : ℕ) (value : Hash) (siblings : List Hash) :
    climbRoot hash index value siblings = climb (node hash) index value siblings := by
  -- from a level on, the walk reads the bits of the index above it
  have hfrom : ∀ level value, (siblings.zipIdx level).foldl (fun root p ↦
      if (index >>> p.2) &&& 1 = 0 then node hash root p.1 else node hash p.1 root) value =
        climb (node hash) (index >>> level) value siblings := by
    induction siblings with
    | nil => intro level value; rfl
    | cons sibling siblings ih =>
      intro level value
      rw [zipIdx_cons, foldl_cons, ih, climb, children]
      simp only [Nat.and_one_is_mod]
      split <;> rfl
  exact hfrom 0 value

end Preimages

/-! ### What an accepted set is -/

variable {members l members' : List PolicyMember} {set : AuthorizationSet}

namespace AuthorizationSet

/-- What `new` has checked and built. -/
structure Built (hash : List UInt8 → Hash) (header : PolicyHeader) (members : List PolicyMember)
    (set : AuthorizationSet) : Prop where
  header_eq : set.header = header
  header_valid : header.validate = .ok ()
  members_eq : set.members = sortByReceipt members
  sorted : set.members.Pairwise fun a b ↦ a.receipt < b.receipt
  count : set.members.length = header.memberCount.toNat
  valid : ∀ m ∈ set.members, m.validate = .ok () ∧ m.admissionSequence ≤ header.sequence
  hashed : Hashed (node hash) treeDepth set.tree
  leaf : ∀ i m, set.members[i]? = some m →
    set.tree (maxMembers + i) = leaf hash (UInt8.ofNat i) m.parts.flatten
  root : set.root = policyRoot hash header.parts.flatten (set.tree 1)

instance : Std.Total fun a b : PolicyMember ↦ a.receipt ≤ b.receipt :=
  ⟨fun a b ↦ le_total a.receipt b.receipt⟩

instance : IsTrans PolicyMember fun a b ↦ a.receipt ≤ b.receipt :=
  ⟨fun _ _ _ hab hbc ↦ le_trans hab hbc⟩

instance : Trans (fun a b : PolicyMember ↦ a.receipt < b.receipt)
    (fun a b : PolicyMember ↦ a.receipt < b.receipt)
    (fun a b : PolicyMember ↦ a.receipt < b.receipt) :=
  ⟨fun hab hbc ↦ lt_trans hab hbc⟩

/-- Sorted with distinct neighbours, the receipts increase. -/
theorem pairwise_lt_sortByReceipt
    (h : (sortByReceipt members).IsChain fun a b ↦ a.receipt ≠ b.receipt) :
    (sortByReceipt members).Pairwise fun a b ↦ a.receipt < b.receipt := by
  have hle : (sortByReceipt members).IsChain fun a b ↦ a.receipt ≤ b.receipt :=
    (pairwise_insertionSort _ members).isChain
  rw [isChain_iff_forall_rel_of_append_cons_cons] at h hle
  rw [← isChain_iff_pairwise, isChain_iff_forall_rel_of_append_cons_cons]
  exact fun a b l₁ l₂ hl ↦ lt_of_le_of_ne (hle hl) (h hl)

variable {member : PolicyMember} {value : Hash}

/-- What the loop over the members has checked, and the leaf it has computed. -/
theorem memberLeaf_ok {index : ℕ} (h : memberLeaf hash header l (member, index) = .ok value) :
    member.validate = .ok () ∧ member.admissionSequence ≤ header.sequence ∧
      value = OpenHandlePolicy.leaf hash (UInt8.ofNat index) member.parts.flatten := by
  obtain ⟨⟨⟩, hvalid, h⟩ := bind_ok.1 h
  obtain ⟨hsequence, h⟩ := guard_ok.1 h
  obtain ⟨-, h⟩ := guard_ok.1 h
  obtain ⟨encoded, hencoded, h⟩ := bind_ok.1 h
  obtain ⟨-, rfl⟩ := PolicyMember.encode_ok_iff.1 hencoded
  exact ⟨hvalid, UInt64.not_lt.1 hsequence, (ok.inj h).symm⟩

variable {i j : ℕ} {m n : PolicyMember} {membership : PolicyMembership} {hb mb : List UInt8}
  {index : UInt8} {root : Hash}

theorem buildTree_leaf {leaves : List Hash} (h : leaves[i]? = some value) :
    buildTree hash leaves (maxMembers + i) = value := by
  have hposition : 2 ^ treeDepth ≤ maxMembers + i := Nat.le_add_right 32 i
  have hinner : ¬maxMembers + i < maxMembers := by omega
  rw [buildTree, fill_leaf hposition, if_neg hinner, Nat.add_sub_cancel_left,
    getD_eq_getElem?_getD, h, getD_some]

theorem hashed_buildTree (leaves : List Hash) :
    Hashed (node hash) treeDepth (buildTree hash leaves) := by
  rw [buildTree]
  exact hashed_fill

theorem built_of_new (h : AuthorizationSet.new hash header members = .ok set) :
    Built hash header members set := by
  obtain ⟨encoded, hencoded, h⟩ := bind_ok.1 h
  obtain ⟨hvalid, rfl⟩ := encode_ok_iff.1 hencoded
  obtain ⟨hcount, h⟩ := guard_ok.1 h
  obtain ⟨hdistinct, h⟩ := guard_ok.1 h
  obtain ⟨-, h⟩ := guard_ok.1 h
  obtain ⟨leaves, hleaves, h⟩ := bind_ok.1 h
  obtain ⟨-, hget⟩ := Except.getElem?_of_mapM hleaves
  have hperm : (sortByReceipt members).Perm members := perm_insertionSort _ members
  have hat : ∀ i m, (sortByReceipt members)[i]? = some m → ∃ value, leaves[i]? = some value ∧
      memberLeaf hash header (sortByReceipt members) (m, i) = .ok value := by
    intro i m hi
    exact hget i (m, i) (by simp [hi])
  obtain rfl : set = ⟨header, sortByReceipt members, buildTree hash leaves,
      policyRoot hash header.parts.flatten (buildTree hash leaves 1)⟩ := (ok.inj h).symm
  exact {
    header_eq := rfl
    header_valid := hvalid
    members_eq := rfl
    sorted := pairwise_lt_sortByReceipt (not_not.1 hdistinct)
    count := hperm.length_eq.trans (not_not.1 hcount)
    valid := by
      intro m hm
      obtain ⟨i, hi⟩ := mem_iff_getElem?.1 hm
      obtain ⟨value, -, hvalue⟩ := hat i m hi
      obtain ⟨hvalid, hsequence, -⟩ := memberLeaf_ok hvalue
      exact ⟨hvalid, hsequence⟩
    hashed := hashed_buildTree leaves
    leaf := by
      intro i m hi
      obtain ⟨value, hi, hvalue⟩ := hat i m hi
      obtain ⟨-, -, rfl⟩ := memberLeaf_ok hvalue
      exact buildTree_leaf hi
    root := rfl }

variable (h : Built hash header members set)

include h

theorem Built.perm : set.members.Perm members := by
  rw [h.members_eq]
  exact perm_insertionSort _ members

/-! ### Positions in receipt order -/

/-- **Two members with one receipt are one.** -/
theorem Built.eq_of_receipt_eq (hi : set.members[i]? = some m) (hj : set.members[j]? = some n)
    (heq : m.receipt = n.receipt) : i = j := by
  obtain ⟨hil, rfl⟩ := List.getElem?_eq_some_iff.1 hi
  obtain ⟨hjl, rfl⟩ := List.getElem?_eq_some_iff.1 hj
  rcases Nat.lt_trichotomy i j with hlt | rfl | hlt
  · exact absurd heq (pairwise_iff_getElem.1 h.sorted i j hil hjl hlt).ne
  · rfl
  · exact absurd heq (pairwise_iff_getElem.1 h.sorted j i hjl hil hlt).ne'

/-- The position of a member is the number of smaller receipts. -/
theorem Built.position_eq (hi : set.members[i]? = some m) :
    (members.filter fun n ↦ n.receipt < m.receipt).length = i := by
  obtain ⟨hil, rfl⟩ := List.getElem?_eq_some_iff.1 hi
  rw [← (h.perm.filter _).length_eq]
  have hsorted := pairwise_iff_getElem.1 h.sorted
  have hbefore : (set.members.take i).filter (fun n ↦ n.receipt < set.members[i].receipt)
      = set.members.take i := by
    refine filter_eq_self.2 fun n hn ↦ ?_
    obtain ⟨j, hj, rfl⟩ := mem_take_iff_getElem.1 hn
    exact decide_eq_true (hsorted j i (by omega) hil (by omega))
  have hafter : (set.members.drop i).filter (fun n ↦ n.receipt < set.members[i].receipt) = [] := by
    refine filter_eq_nil_iff.2 fun n hn ↦ ?_
    obtain ⟨j, hj, rfl⟩ := mem_drop_iff_getElem.1 hn
    rw [decide_eq_true_eq, not_lt]
    rcases eq_zero_or_pos j with rfl | hpos
    · exact le_refl _
    · exact (hsorted i (i + j) hil (by omega) (by omega)).le
  calc (set.members.filter fun n ↦ n.receipt < set.members[i].receipt).length
      = ((set.members.take i ++ set.members.drop i).filter
          fun n ↦ n.receipt < set.members[i].receipt).length := by rw [take_append_drop]
    _ = (set.members.take i).length := by rw [filter_append, hbefore, hafter, append_nil]
    _ = i := by rw [length_take, min_eq_left hil.le]

theorem Built.count_le : header.memberCount.toNat ≤ maxMembers := by
  have hvalid := h.header_valid
  rw [PolicyHeader.validate] at hvalid
  obtain ⟨hcount, -⟩ := guard_ok.1 hvalid
  rw [not_or, not_lt] at hcount
  exact hcount.2

theorem Built.lt_count (hi : set.members[i]? = some m) : i < header.memberCount.toNat := by
  rw [← h.count]
  exact (List.getElem?_eq_some_iff.1 hi).1

theorem Built.find?_eq (hi : set.members[i]? = some m) :
    set.members.zipIdx.find? (·.1.receipt = m.receipt) = some (m, i) := by
  have hmem : (m, i) ∈ set.members.zipIdx := mk_mem_zipIdx_iff_getElem?.2 hi
  have hsome : (set.members.zipIdx.find? (·.1.receipt = m.receipt)).isSome :=
    find?_isSome.2 ⟨(m, i), hmem, by simp⟩
  obtain ⟨⟨n, j⟩, hfind⟩ := isSome_iff_exists.1 hsome
  have hj : set.members[j]? = some n := mk_mem_zipIdx_iff_getElem?.1 (mem_of_find?_eq_some hfind)
  have heq : n.receipt = m.receipt := by simpa using find?_some hfind
  obtain rfl := h.eq_of_receipt_eq hj hi heq
  obtain rfl := mem_unique hj hi
  exact hfind

omit h

/-! ### Verification -/

/-- A member that the header lets a consumer select. -/
def Selectable (header : PolicyHeader) (member : PolicyMember) : Prop :=
  member.status = .active ∧ header.minimumAdmissionSequence ≤ member.admissionSequence ∧
    (header.mode = .exactly → member.receipt = header.exactReceipt)

/-- The fields of a witness, read back. -/
theorem witness_fields {siblings : List Hash} (hhb : hb.length = 188) (hmb : mb.length = 292)
    (hsiblings : siblings.length = treeDepth) :
    let bytes := (selectionParts hb mb index siblings).flatten
    bytes.length = selectionBytes ∧ field 0 8 bytes = selectionMagic ∧
      field 489 7 bytes = replicate 7 0 ∧ field 8 188 bytes = hb ∧
      field 196 292 bytes = mb ∧ byteAt bytes 488 = index ∧ witnessSiblings bytes = siblings := by
  match siblings, hsiblings with
  | [s₀, s₁, s₂, s₃, s₄], _ =>
    refine ⟨by simp [selectionParts, hhb, hmb, selectionBytes], ?_⟩
    simp (disch := simp [*]) [selectionParts, hashAt, witnessSiblings, treeDepth, hhb, hmb,
      range_succ, reading_rules, -flatten_cons]

/-- **What the verifier makes of an honest witness.** -/
theorem verifySelection_ok_iff {siblings : List Hash} (hheader : header.encode = .ok hb)
    (hmember : member.encode = .ok mb)
    (hindex : index < header.memberCount) (hsiblings : siblings.length = treeDepth)
    (hsequence : member.admissionSequence ≤ header.sequence) (hroot : policyRoot hash hb
      (climbRoot hash index.toNat (OpenHandlePolicy.leaf hash index mb) siblings) = root) :
    verifySelection hash root (selectionParts hb mb index siblings).flatten = .ok membership ↔
      Selectable header member ∧ ⟨root, header, member, index⟩ = membership := by
  have hhb : hb.length = 188 := by
    obtain ⟨-, rfl⟩ := encode_ok_iff.1 hheader
    exact length_flatten_parts
  have hmb : mb.length = 292 := by
    obtain ⟨-, rfl⟩ := PolicyMember.encode_ok_iff.1 hmember
    exact PolicyMember.length_flatten_parts
  obtain ⟨hlength, hmagic, hreserved, hheaderAt, hmemberAt, hindexAt, hsiblingsAt⟩ :=
    @witness_fields hb mb index siblings hhb hmb hsiblings
  have hbound : ¬index ≥ header.memberCount := by
    rw [UInt8.not_le]
    exact hindex
  have hlate : ¬member.admissionSequence > header.sequence := UInt64.not_lt.2 hsequence
  simp only [verifySelection, hlength, hmagic, hreserved, hheaderAt, hmemberAt, hindexAt,
    hsiblingsAt, decode_encode hheader, PolicyMember.decode_encode hmember, hheader,
    hmember, hroot, hbound, hlate, or_false, ne_eq, not_true_eq_false, if_false, ok_bind]
  rw [guard_ok, guard_ok, guard_ok, pure_ok]
  unfold Selectable
  rw [not_not, UInt64.not_lt, not_and, not_not, and_assoc, and_assoc]

/-- The root above the leaf of a member. -/
theorem Built.climbRoot_eq (h : Built hash header members set) (hi : set.members[i]? = some m) :
    climbRoot hash (UInt8.ofNat i).toNat
        (OpenHandlePolicy.leaf hash (UInt8.ofNat i) m.parts.flatten)
        (siblings set.tree treeDepth (maxMembers + i)) = set.tree 1 := by
  have hlt : i < 2 ^ treeDepth := lt_of_lt_of_le (h.lt_count hi) h.count_le
  have hnat : (UInt8.ofNat i).toNat = i := UInt8.toNat_ofNat_of_lt' (lt_trans hlt (by decide))
  have hclimb : climb (node hash) (2 ^ treeDepth + i - 2 ^ treeDepth)
      (set.tree (2 ^ treeDepth + i)) (siblings set.tree treeDepth (2 ^ treeDepth + i))
        = set.tree 1 :=
    climb_siblings h.hashed (le_refl treeDepth) (Nat.le_add_right _ i) (by rw [pow_succ]; omega)
  rw [Nat.add_sub_cancel_left] at hclimb
  rw [climbRoot_eq_climb, hnat, ← h.leaf i m hi]
  exact hclimb

/-- **The witness of a member verifies exactly when the member is selectable.** -/
theorem Built.verifySelection_iff (h : Built hash header members set)
    (hi : set.members[i]? = some m) :
    ∃ bytes, set.selection m.receipt = .ok bytes ∧ ∀ membership,
      verifySelection hash set.root bytes = .ok membership ↔
        Selectable header m ∧ ⟨set.root, header, m, UInt8.ofNat i⟩ = membership := by
  obtain ⟨hvalid, hsequence⟩ := h.valid m (mem_of_getElem? hi)
  have hheader : header.encode = .ok header.parts.flatten :=
    encode_ok_iff.2 ⟨h.header_valid, rfl⟩
  have hmember : m.encode = .ok m.parts.flatten := PolicyMember.encode_ok_iff.2 ⟨hvalid, rfl⟩
  refine ⟨(selectionParts header.parts.flatten m.parts.flatten (UInt8.ofNat i)
    (siblings set.tree treeDepth (maxMembers + i))).flatten, ?_, ?_⟩
  · simp only [selection, h.find?_eq hi, h.header_eq, hheader, hmember, ok_bind]
    rfl
  · intro membership
    have hlt := h.lt_count hi
    have hindex : UInt8.ofNat i < header.memberCount := by
      rw [UInt8.lt_iff_toNat_lt, UInt8.toNat_ofNat_of_lt' (lt_trans hlt (UInt8.toNat_lt _))]
      exact hlt
    refine verifySelection_ok_iff hheader hmember hindex (length_siblings _ _ _) hsequence ?_
    rw [h.climbRoot_eq hi, h.root]

/-! ### Nothing else verifies -/

/-- What the verifier has checked of a witness it accepts. -/
theorem verifySelection_inv (h : verifySelection hash root bytes = .ok membership) :
    ∃ header member, membership = ⟨root, header, member, byteAt bytes 488⟩ ∧
      PolicyHeader.decode (field 8 188 bytes) = .ok header ∧
      PolicyMember.decode (field 196 292 bytes) = .ok member ∧
      header.validate = .ok () ∧ member.validate = .ok () ∧
      byteAt bytes 488 < header.memberCount ∧
      policyRoot hash header.parts.flatten (climb (node hash) (byteAt bytes 488).toNat
        (OpenHandlePolicy.leaf hash (byteAt bytes 488) member.parts.flatten)
        (witnessSiblings bytes)) = root := by
  unfold verifySelection at h
  obtain ⟨-, h⟩ := guard_ok.1 h
  obtain ⟨-, h⟩ := guard_ok.1 h
  obtain ⟨-, h⟩ := guard_ok.1 h
  obtain ⟨header, hheader, h⟩ := bind_ok.1 h
  obtain ⟨member, hmember, h⟩ := bind_ok.1 h
  obtain ⟨hindex, h⟩ := guard_ok.1 h
  obtain ⟨mb, hmb, h⟩ := bind_ok.1 h
  obtain ⟨hb, hhb, h⟩ := bind_ok.1 h
  obtain ⟨hroot, h⟩ := guard_ok.1 h
  obtain ⟨-, h⟩ := guard_ok.1 h
  obtain ⟨-, h⟩ := guard_ok.1 h
  obtain ⟨-, hmembership⟩ := guard_ok.1 h
  obtain ⟨hmvalid, rfl⟩ := PolicyMember.encode_ok_iff.1 hmb
  obtain ⟨hhvalid, rfl⟩ := encode_ok_iff.1 hhb
  rw [not_not, climbRoot_eq_climb] at hroot
  rw [UInt8.not_le] at hindex
  exact ⟨header, member, (ok.inj hmembership).symm, hheader, hmember, hhvalid,
    hmvalid, hindex, hroot⟩

theorem leafPreimage_mem_preimages (hi : set.members[i]? = some m) :
    leafPreimage (UInt8.ofNat i) m.parts.flatten ∈ set.preimages := by
  refine mem_append_left _ (mem_append_left _ (mem_append_left _ ?_))
  exact mem_map.2 ⟨(m, i), mk_mem_zipIdx_iff_getElem?.2 hi, rfl⟩

theorem nodePreimage_mem_preimages (hpos : 0 < i) (hi : i < 2 ^ treeDepth) :
    nodePreimage (set.tree (2 * i)) (set.tree (2 * i + 1)) ∈ set.preimages := by
  refine mem_append_left _ (mem_append_right _ (mem_map.2 ⟨i, ?_, rfl⟩))
  rw [mem_range'_1]
  omega

theorem policyRootPreimage_mem_preimages :
    policyRootPreimage set.header.parts.flatten (set.tree 1) ∈ set.preimages :=
  mem_append_right _ mem_cons_self

/-- **A witness that verifies names the header and a member of the set**, if the hash function has
no collision among the strings hashed for the set and for the witness. -/
theorem Built.mem_of_verifySelection (h : Built hash header members set)
    (hinj : Set.InjOn hash {x | x ∈ set.preimages ++ selectionPreimages hash bytes})
    (hverify : verifySelection hash set.root bytes = .ok membership) :
    membership.header = header ∧
      set.members[membership.index.toNat]? = some membership.member := by
  obtain ⟨header', member, rfl, hheader, hmember, hhvalid, hmvalid, hindex, hroot⟩ :=
    verifySelection_inv hverify
  rw [selectionPreimages, hheader, hmember] at hinj
  -- the two roots are hashes of one string, so the headers and the tops of the trees agree
  rw [h.root] at hroot
  have hrootEq := hinj (mem_append_right _ (mem_append_right _ mem_cons_self))
    (mem_append_left _ policyRootPreimage_mem_preimages) (by rw [h.header_eq]; exact hroot)
  obtain ⟨hbytes, htop⟩ := policyRootPreimage_inj (by simp only [length_flatten_parts]) hrootEq
  rw [h.header_eq] at hbytes
  obtain rfl : header' = header :=
    eq_of_encode_eq (encode_ok_iff.2 ⟨hhvalid, hbytes⟩)
      (encode_ok_iff.2 ⟨h.header_valid, rfl⟩)
  refine ⟨rfl, ?_⟩
  -- the walk from the root down leads to the leaf of the member at the index
  have hlt : (byteAt bytes 488).toNat < set.members.length := by
    rw [h.count]
    exact UInt8.lt_iff_toNat_lt.1 hindex
  have hlt' : (byteAt bytes 488).toNat < 2 ^ treeDepth :=
    lt_of_lt_of_le (h.count ▸ hlt) h.count_le
  have hpairs : ∀ p ∈ pairs (node hash) (2 ^ treeDepth + (byteAt bytes 488).toNat
      - 2 ^ treeDepth) (OpenHandlePolicy.leaf hash (byteAt bytes 488) member.parts.flatten)
      (witnessSiblings bytes), ∀ i, 0 < i → i < 2 ^ treeDepth →
      node hash p.1 p.2 = node hash (set.tree (2 * i)) (set.tree (2 * i + 1)) →
        p = (set.tree (2 * i), set.tree (2 * i + 1)) := by
    rw [Nat.add_sub_cancel_left]
    intro p hp i hpos hi heq
    have hnode := hinj (mem_append_right _ (mem_append_left _
        (mem_cons_of_mem _ (mem_map.2 ⟨p, hp, rfl⟩))))
      (mem_append_left _ (nodePreimage_mem_preimages hpos hi)) heq
    obtain ⟨hleft, hright⟩ := nodePreimage_inj hnode
    exact Prod.ext hleft hright
  have hleaf : OpenHandlePolicy.leaf hash (byteAt bytes 488) member.parts.flatten
      = set.tree (2 ^ treeDepth + (byteAt bytes 488).toNat) :=
    eq_of_climb_eq h.hashed (le_refl treeDepth) (Nat.le_add_right _ _)
      (by rw [pow_succ]; omega) (by rw [witnessSiblings, length_map, length_range])
      hpairs (by rw [Nat.add_sub_cancel_left]; exact htop)
  have hget := getElem?_eq_getElem hlt
  have hmemberLeaf := hleaf.trans (h.leaf _ _ hget)
  have hmemberEq := hinj (mem_append_right _ (mem_append_left _ mem_cons_self))
    (mem_append_left _ (leafPreimage_mem_preimages hget)) hmemberLeaf
  obtain ⟨hvalid, -⟩ := h.valid _ (getElem_mem hlt)
  obtain rfl : member = set.members[(byteAt bytes 488).toNat] :=
    PolicyMember.eq_of_encode_eq
      (PolicyMember.encode_ok_iff.2 ⟨hmvalid, leafPreimage_inj hmemberEq⟩)
      (PolicyMember.encode_ok_iff.2 ⟨hvalid, rfl⟩)
  exact hget

/-! ### The order of the members -/

/-- Members with distinct receipts are sorted into one list, in whatever order they are given. -/
theorem sortByReceipt_eq_of_perm (hperm : members'.Perm members)
    (hsorted : (sortByReceipt members).Pairwise fun a b ↦ a.receipt < b.receipt) :
    sortByReceipt members' = sortByReceipt members :=
  Unique.insertionSort_eq_of_perm (hperm.trans (perm_insertionSort _ members).symm) hsorted

/-- **A set does not depend on the order in which its members are given.** -/
theorem new_eq_of_perm (h : AuthorizationSet.new hash header members = .ok set)
    (hperm : members'.Perm members) : AuthorizationSet.new hash header members' = .ok set := by
  have hbuilt := built_of_new h
  rw [AuthorizationSet.new, sortByReceipt_eq_of_perm hperm (hbuilt.members_eq ▸ hbuilt.sorted),
    hperm.length_eq]
  exact h

end AuthorizationSet

/-! ### What a set admits -/

open AuthorizationSet in
/-- **An authorization set admits exactly its selectable members.** For a set accepted by `new`:
the witness of a member verifies if and only if the member is selectable, and then names the header,
the member and its position in receipt order; a witness that verifies names the header and a member,
if the hash function has no collision among the strings hashed for the set and the witness; and the
root is the same for every order of the members. -/
theorem authorizationSet_admits (h : AuthorizationSet.new hash header members = .ok set) :
    (∀ m ∈ members, ∃ bytes, set.selection m.receipt = .ok bytes ∧
      ((∃ membership, verifySelection hash set.root bytes = .ok membership) ↔
        Selectable header m) ∧
      ∀ membership, verifySelection hash set.root bytes = .ok membership →
        membership.header = header ∧ membership.member = m ∧
          membership.index.toNat = (members.filter fun n ↦ n.receipt < m.receipt).length) ∧
    (∀ bytes membership,
      Set.InjOn hash {x | x ∈ set.preimages ++ selectionPreimages hash bytes} →
        verifySelection hash set.root bytes = .ok membership →
          membership.header = header ∧ membership.member ∈ members) ∧
    ∀ members' : List PolicyMember, members'.Perm members →
      ∃ set', AuthorizationSet.new hash header members' = .ok set' ∧ set'.root = set.root := by
  have hbuilt := built_of_new h
  refine ⟨?_, ?_, fun members' hperm ↦ ⟨set, new_eq_of_perm h hperm, rfl⟩⟩
  · intro m hm
    obtain ⟨i, hi⟩ := mem_iff_getElem?.1 (hbuilt.perm.symm.subset hm)
    obtain ⟨bytes, hbytes, hverify⟩ := hbuilt.verifySelection_iff hi
    refine ⟨bytes, hbytes, ?_, ?_⟩
    · constructor
      · rintro ⟨membership, hok⟩
        exact ((hverify membership).1 hok).1
      · exact fun hselectable ↦ ⟨_, (hverify _).2 ⟨hselectable, rfl⟩⟩
    · intro membership hok
      obtain ⟨-, rfl⟩ := (hverify membership).1 hok
      have hlt := Nat.lt_trans (hbuilt.lt_count hi) (UInt8.toNat_lt _)
      refine ⟨rfl, rfl, ?_⟩
      rw [hbuilt.position_eq hi]
      exact UInt8.toNat_ofNat_of_lt' hlt
  · intro bytes membership hinj hverify
    obtain ⟨hheader, hmember⟩ := hbuilt.mem_of_verifySelection hinj hverify
    exact ⟨hheader, hbuilt.perm.subset (mem_of_getElem? hmember)⟩

/-- Numbers the places of a tree, as a hash function to compute with. -/
def placeHash (x : List UInt8) : Hash :=
  Hash.ofBytes [if x.length = 95 then x.getD 31 0 / 2 else if x.length = 33 then x.getD 32 0 + 32
    else if x.length = 326 then x.getD 33 0 + 32 else 64]

def exampleHeader : PolicyHeader where
  class_ := .script
  role := .lock
  mode := .compatible
  memberCount := 2
  sequence := 5
  minimumAdmissionSequence := 1
  requiredInterface := Hash.ofBytes [1]
  exactReceipt := Hash.zero
  networkGenesis := Hash.ofBytes [2]
  targetProfile := Hash.ofBytes [3]
  runtimeAbi := Hash.ofBytes [4]

def exampleMember (status : MemberStatus) (receipt : UInt8) : PolicyMember where
  status
  hashType := .data
  admissionSequence := 3
  deploymentSequence := 0
  receipt := Hash.ofBytes [receipt]
  interface := Hash.ofBytes [1]
  artifact := Hash.ofBytes [5]
  script := Hash.ofBytes [6]
  codeHash := Hash.ofBytes [5]
  codeTxHash := Hash.ofBytes [7]
  deploymentLine := Hash.zero
  historyTip := Hash.zero
  codeOutputIndex := 0

def exampleMembers : List PolicyMember := [exampleMember .yanked 9, exampleMember .active 8]

/-- The set of the members, with the numbers of its places. -/
def exampleSet : AuthorizationSet where
  header := exampleHeader
  members := AuthorizationSet.sortByReceipt exampleMembers
  tree i := Hash.ofBytes [UInt8.ofNat i]
  root := Hash.ofBytes [64]

/-- The witness for the active member. -/
def exampleWitness : List UInt8 := (exampleSet.selection (Hash.ofBytes [8])).toOption.getD []

theorem injOn_placeHash : Set.InjOn placeHash
    {x | x ∈ exampleSet.preimages ++ selectionPreimages placeHash exampleWitness} := by
  have hfind : ∀ x ∈ exampleSet.preimages ++ selectionPreimages placeHash exampleWitness,
      exampleSet.preimages.find? (placeHash · = placeHash x) = some x := by decide +kernel
  intro x hx y hy hxy
  have hy := hfind y hy
  rw [← hxy, hfind x hx] at hy
  exact some.inj hy

theorem exists_exampleSet :
    ∃ set, AuthorizationSet.new placeHash exampleHeader exampleMembers = .ok set ∧
      set.selection (Hash.ofBytes [8]) = .ok exampleWitness ∧ set.root = exampleSet.root ∧
      set.preimages = exampleSet.preimages := by
  have hnew : (AuthorizationSet.new placeHash exampleHeader exampleMembers).toOption.any (fun set ↦
      set.selection (Hash.ofBytes [8]) = .ok exampleWitness ∧ set.root = exampleSet.root ∧
        set.preimages.length = 64) = true := by decide +kernel
  -- level by level, since the kernel does not share what stands below a place
  have hstrings : ∀ level < 6, (AuthorizationSet.new placeHash exampleHeader
      exampleMembers).toOption.any (fun set ↦ ∀ k < 64, (k - 31).log2 = level →
        set.preimages[k]? = exampleSet.preimages[k]?) := by
    intro level hlevel
    interval_cases level <;> decide +kernel
  have hlevels : ∀ k < 64, (k - 31).log2 < 6 := by decide +kernel
  obtain ⟨set, hset, hcomputed⟩ := exists_of_toOption_any hnew
  obtain ⟨hwitness, hroot, hlength⟩ := of_decide_eq_true hcomputed
  refine ⟨set, hset, hwitness, hroot, ext_getElem (hlength.trans (by decide +kernel)) ?_⟩
  intro k hk _
  have hk' : k < 64 := hlength ▸ hk
  have h := hstrings _ (hlevels k hk')
  rw [hset] at h
  have h := of_decide_eq_true h k hk' rfl
  rwa [getElem?_eq_getElem, getElem?_eq_getElem, some.injEq] at h

/-- Of a yanked and an active member, the active one can be selected, at the first place; and no two
of the strings that are hashed for it have one hash. -/
theorem authorizationSet_admits_active :
    ∃ set membership, AuthorizationSet.new placeHash exampleHeader exampleMembers = .ok set ∧
      set.selection (Hash.ofBytes [8]) = .ok exampleWitness ∧
      Set.InjOn placeHash {x | x ∈ set.preimages ++ selectionPreimages placeHash exampleWitness} ∧
      verifySelection placeHash set.root exampleWitness = .ok membership ∧
        membership.header = exampleHeader ∧ membership.member = exampleMember .active 8 ∧
          membership.index.toNat = 0 := by
  obtain ⟨set, hset, hwitness, -, hpreimages⟩ := exists_exampleSet
  obtain ⟨hall, hsound, -⟩ := authorizationSet_admits hset
  obtain ⟨bytes, hbytes, hverify, hnames⟩ := hall (exampleMember .active 8) (by decide +kernel)
  obtain rfl := ok.inj (hbytes.symm.trans hwitness)
  obtain ⟨membership, hok⟩ := hverify.2 ⟨rfl, by decide +kernel, fun hmode ↦ nomatch hmode⟩
  obtain ⟨-, hmember, hindex⟩ := hnames membership hok
  have hinj := hpreimages ▸ injOn_placeHash
  exact ⟨set, membership, hset, hbytes, hinj, hok, (hsound _ _ hinj hok).1, hmember,
    hindex.trans (by decide +kernel)⟩

end CellScript.OpenHandlePolicy
