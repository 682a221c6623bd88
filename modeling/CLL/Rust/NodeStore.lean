import CLL.Rust.Verifiers

/-!
# The node file

`FileNodeStore` of `node_store.rs` and `add_leaf` of `mmr.rs`. The file is a byte string. A crash leaves some
first bytes of what is appended, and `open` drops what is less than a record. `recovers_iff` says after which
crashes the file is still that of a mountain range: those that leave no whole record of the leaf that was
being appended, or all of them.
-/

namespace CLL.Rust
open PostOrder
open CLL.Core (HashFunction sha256Hash Digest digestLen heightAt nodeCount maxMmrSize IsMmr)

/-- How a call fails: it panics, or it returns `Err(InvalidArgument)`. -/
inductive StoreFailure where
  | panic
  | invalidArgument
deriving DecidableEq

/-- A call that may fail. -/
abbrev Stored (α : Type) := Except StoreFailure α

/-- The traits `NodeReader` and `NodeAppender`. -/
structure NodeAppender (σ : Type) where
  size : σ → ℕ
  node : σ → ℕ → Stored Bytes
  appendNodes : σ → List Bytes → σ

/-- `MemoryNodeStore`. -/
def memoryNodeStore : NodeAppender (List Bytes) where
  size nodes := nodes.length
  node nodes pos :=
    match nodes[pos]? with
    | some hash => .ok hash
    | none => .error .panic
  appendNodes nodes hashes := nodes ++ hashes

section
variable (H : HashFunction) {σ : Type} (S : NodeAppender σ)

/-- `while peak_idx >= 0 && height_at(existing_peaks[peak_idx]) == height { … }` of `add_leaf`. The existing
peaks not yet looked at are listed from right to left. -/
def addLeafLoop (nodes : σ) (leafPos : ℕ) : List ℕ → ℕ → Bytes → List Bytes → Stored (List Bytes)
  | [], _, _, newNodes => .ok newNodes
  | leftPos :: existingPeaks, height, curHash, newNodes =>
    if heightAt leftPos = height then do
      let leftHash ← S.node nodes leftPos
      let parentPos := leafPos + newNodes.length
      let parentHash := interiorHash H leftHash curHash parentPos
      addLeafLoop nodes leafPos existingPeaks (height + 1) parentHash (newNodes ++ [parentHash])
    else .ok newNodes

/-- `if size == 0 { Vec::new() } else { peaks(size)? }`. -/
def existingPeaks (size : ℕ) : Stored (List ℕ) :=
  if size = 0 then .ok []
  else
    match peaks size with
    | some pks => .ok pks
    | none => .error .invalidArgument

/-- `add_leaf`: the extended store, the position of the leaf and the nodes appended. -/
def addLeaf (nodes : σ) (leaf : Digest) : Stored (σ × ℕ × List Bytes) := do
  let size := S.size nodes
  let pks ← existingPeaks size
  let newNodes ← addLeafLoop H S nodes size pks.reverse 0 leaf.1 [leaf.1]
  .ok (S.appendNodes nodes newNodes, size, newNodes)

/-- `add_leaf` for every leaf in turn. -/
def addLeaves (nodes : σ) : List Digest → Stored σ
  | [] => .ok nodes
  | leaf :: leaves => do
    let (nodes, _, _) ← addLeaf H S nodes leaf
    addLeaves nodes leaves

end

/-- `FileNodeStore`. -/
structure FileNodeStore where
  file : Bytes
  nodeCount : ℕ

/-- `OpenReport`. -/
structure OpenReport where
  nodeCount : ℕ
  truncatedBytes : ℕ

/-- `FileNodeStore::open` of a file; a file that is absent is created empty. -/
def FileNodeStore.open_ (file : Bytes) : FileNodeStore × OpenReport :=
  let wholeRecords := file.length / digestLen
  let truncatedBytes := file.length % digestLen
  let kept := if truncatedBytes ≠ 0 then file.take (wholeRecords * digestLen) else file
  (⟨kept, wholeRecords⟩, ⟨wholeRecords, truncatedBytes⟩)

/-- The traits of `FileNodeStore`: `read_exact` of a record fails at the end of the file. -/
def fileNodeStore : NodeAppender FileNodeStore where
  size s := s.nodeCount
  node s pos :=
    let buf := (s.file.drop (pos * digestLen)).take digestLen
    if buf.length < digestLen then .error .panic else .ok buf
  appendNodes s hashes := ⟨s.file ++ hashes.flatten, s.nodeCount + hashes.length⟩

/-- The file after a crash while `newNodes` were written, when only the first bytes of them have reached the
disk. -/
def FileNodeStore.crash (s : FileNodeStore) (newNodes : List Bytes) (written : ℕ) : Bytes :=
  s.file ++ newNodes.flatten.take written

/-- A string of 32-byte records. -/
def Records (nodes : List Bytes) : Prop := ∀ node ∈ nodes, node.length = digestLen

/-- Records begin with a record. -/
lemma Records.cons {node : Bytes} {nodes : List Bytes} (records : Records (node :: nodes)) :
    node.length = digestLen ∧ Records nodes := List.forall_mem_cons.mp records

/-- Records are appended to records. -/
lemma Records.append {nodes more : List Bytes} (records : Records nodes) (later : Records more) :
    Records (nodes ++ more) := fun node mem => (List.mem_append.mp mem).elim (records node) (later node)

/-- Records are as long as their number says. -/
lemma Records.length_flatten {nodes : List Bytes} (records : Records nodes) :
    nodes.flatten.length = nodes.length * digestLen := by
  induction nodes with
  | nil => exact (Nat.zero_mul _).symm
  | cons node nodes ih =>
    rw [List.flatten_cons, List.length_append, records.cons.1, ih records.cons.2, List.length_cons]
    ring

/-- The first records are the first bytes. -/
lemma Records.flatten_take {nodes : List Bytes} (records : Records nodes) (count : ℕ) :
    (nodes.take count).flatten = nodes.flatten.take (count * digestLen) := by
  induction nodes generalizing count with
  | nil => simp
  | cons node nodes ih =>
    cases count with
    | zero => simp
    | succ count =>
      have len := records.cons.1
      have whole : node.take ((count + 1) * digestLen) = node :=
        List.take_of_length_le (by rw [len, Nat.succ_mul]; omega)
      rw [List.take_succ_cons, List.flatten_cons, List.flatten_cons, ih records.cons.2, List.take_append, whole,
        len, Nat.succ_mul, Nat.add_sub_cancel]

/-- The bytes at a record. -/
lemma Records.flatten_drop {nodes : List Bytes} (records : Records nodes) (count : ℕ) :
    nodes.flatten.drop (count * digestLen) = (nodes.drop count).flatten := by
  induction nodes generalizing count with
  | nil => simp
  | cons node nodes ih =>
    cases count with
    | zero => simp
    | succ count =>
      have len := records.cons.1
      rw [List.flatten_cons, List.drop_append, len, List.drop_of_length_le (by rw [len, Nat.succ_mul]; omega),
        Nat.succ_mul, Nat.add_sub_cancel, ih records.cons.2, List.nil_append, List.drop_succ_cons]

/-- The file of a store is that of the nodes. -/
structure Represents (s : FileNodeStore) (nodes : List Bytes) : Prop where
  file : s.file = nodes.flatten
  count : s.nodeCount = nodes.length
  records : Records nodes

/-- The store in memory reads its nodes. -/
lemma memoryNodeStore_node (nodes : List Bytes) (pos : ℕ) : memoryNodeStore.node nodes pos =
    match nodes[pos]? with
    | some hash => .ok hash
    | none => .error .panic := rfl

/-- A node is read from the file as from memory. -/
lemma Represents.node_eq {s : FileNodeStore} {nodes : List Bytes} (rep : Represents s nodes) (pos : ℕ) :
    fileNodeStore.node s pos = memoryNodeStore.node nodes pos := by
  unfold fileNodeStore memoryNodeStore
  dsimp only
  rw [rep.file, rep.records.flatten_drop]
  cases found : nodes[pos]? with
  | none =>
    rw [List.drop_of_length_le (List.getElem?_eq_none_iff.mp found)]
    rfl
  | some node =>
    obtain ⟨lt, rfl⟩ := List.getElem?_eq_some_iff.mp found
    have len := rep.records _ (List.getElem_mem lt)
    rw [List.drop_eq_getElem_cons lt, List.flatten_cons, List.take_left' len, if_neg (by rw [len]; exact lt_irrefl _)]

/-- Appended nodes are written behind the nodes. -/
lemma Represents.append {s : FileNodeStore} {nodes new : List Bytes} (rep : Represents s nodes)
    (later : Records new) : Represents (fileNodeStore.appendNodes s new) (nodes ++ new) where
  file := by
    rw [List.flatten_append, ← rep.file]
    rfl
  count := by
    rw [List.length_append, ← rep.count]
    rfl
  records := rep.records.append later

/-- `open` finds the whole records of what was written. -/
lemma Represents.crash {s : FileNodeStore} {nodes new : List Bytes} (rep : Represents s nodes)
    (later : Records new) {written : ℕ} (le : written ≤ new.flatten.length) :
    Represents (FileNodeStore.open_ (s.crash new written)).1 (nodes ++ new.take (written / digestLen)) := by
  have file : s.crash new written = nodes.flatten ++ new.flatten.take written := by
    rw [FileNodeStore.crash, rep.file]
  have len : (s.crash new written).length = nodes.length * digestLen + written := by
    rw [file, List.length_append, rep.records.length_flatten, List.length_take_of_le le]
  have positive : 0 < digestLen := by decide
  have whole : (s.crash new written).length / digestLen = nodes.length + written / digestLen := by
    rw [len, Nat.add_comm, Nat.add_mul_div_right _ _ positive, Nat.add_comm]
  have kept : (s.crash new written).take ((nodes.length + written / digestLen) * digestLen) =
      (nodes ++ new.take (written / digestLen)).flatten := by
    have below : written / digestLen * digestLen ≤ written := Nat.div_mul_le_self _ _
    rw [file, List.flatten_append, later.flatten_take, List.take_append, Nat.add_mul,
      rep.records.length_flatten, Nat.add_sub_cancel_left, List.take_take, Nat.min_eq_left below,
      List.take_of_length_le (by rw [rep.records.length_flatten]; omega)]
  have few : written / digestLen ≤ new.length := by
    rw [later.length_flatten] at le
    exact Nat.div_le_of_le_mul (by rwa [Nat.mul_comm])
  refine ⟨?_, ?_, rep.records.append fun node mem => later node (List.mem_of_mem_take mem)⟩
  · show (if (s.crash new written).length % digestLen ≠ 0 then
      (s.crash new written).take ((s.crash new written).length / digestLen * digestLen)
      else s.crash new written) = _
    rw [whole, kept]
    split
    · rfl
    · next exact_ =>
      rw [← kept, ← whole, Nat.div_mul_cancel (Nat.dvd_of_mod_eq_zero (not_not.mp exact_)), List.take_length]
  · show (s.crash new written).length / digestLen = _
    rw [whole, List.length_append, List.length_take_of_le few]

variable {H : HashFunction}

/-- Adding a leaf reads both stores alike. -/
lemma addLeafLoop_congr {σ τ : Type} {S : NodeAppender σ} {T : NodeAppender τ} {s : σ} {t : τ}
    (same : ∀ pos, S.node s pos = T.node t pos) (leafPos : ℕ) (existing : List ℕ) (height : ℕ) (curHash : Bytes)
    (newNodes : List Bytes) :
    addLeafLoop H S s leafPos existing height curHash newNodes =
      addLeafLoop H T t leafPos existing height curHash newNodes := by
  induction existing generalizing height curHash newNodes with
  | nil => rfl
  | cons leftPos existing ih =>
    rw [addLeafLoop, addLeafLoop, same]
    simp only [ih]

/-- Where Python's loop returns, this one returns the same. -/
lemma addLeafLoop_of_core {nodes : List Bytes} {leafPos : ℕ} {existing : List ℕ} {height : ℕ} {curHash : Bytes}
    {newNodes new : List Bytes} (ok : Core.addLeafLoop H nodes leafPos existing height curHash newNodes = .ok new) :
    addLeafLoop H memoryNodeStore nodes leafPos existing height curHash newNodes = .ok new := by
  induction existing generalizing height curHash newNodes with
  | nil =>
    cases ok
    rfl
  | cons leftPos existing ih =>
    rw [Core.addLeafLoop] at ok
    rw [addLeafLoop]
    split at ok
    · next top =>
      obtain ⟨leftHash, left, ok⟩ := bind_eq_ok.mp ok
      obtain ⟨parentHash, parent, ok⟩ := bind_eq_ok.mp ok
      have read : memoryNodeStore.node nodes leftPos = .ok leftHash := by
        unfold Core.node at left
        rw [memoryNodeStore_node]
        cases found : nodes[leftPos]? with
        | none =>
          rw [found] at left
          cases left
        | some hash =>
          rw [found] at left
          cases left
          rfl
      have hashed : interiorHash H leftHash curHash (leafPos + newNodes.length) = parentHash :=
        (Core.interiorHash_eq_ok H parent).symm
      rw [if_pos top, read, ok_bind]
      dsimp only
      rw [hashed]
      exact ih ok
    · next top =>
      rw [if_neg top]
      cases ok
      rfl

/-- The nodes that are appended are records. -/
lemma addLeafLoop_records {nodes : List Bytes} {leafPos : ℕ} {existing : List ℕ} {height : ℕ} {curHash : Bytes}
    {newNodes new : List Bytes} (records : Records newNodes)
    (ok : addLeafLoop H memoryNodeStore nodes leafPos existing height curHash newNodes = .ok new) :
    Records new := by
  induction existing generalizing height curHash newNodes with
  | nil =>
    cases ok
    exact records
  | cons leftPos existing ih =>
    rw [addLeafLoop] at ok
    split at ok
    · obtain ⟨leftHash, -, ok⟩ := bind_eq_ok.mp ok
      refine ih (records.append fun node mem => ?_) ok
      rw [List.mem_singleton.mp mem]
      exact H.length_digest' _
    · cases ok
      exact records

/-- The leaf hashes. -/
def hashes (leaves : List Digest) : List Bytes := leaves.map (·.1)

/-- The hashes of leaves have 32 bytes. -/
lemma length_of_mem_hashes {leaves : List Digest} : ∀ l ∈ hashes leaves, l.length = 32 := by
  intro l mem
  obtain ⟨d, -, rfl⟩ := List.mem_map.mp mem
  exact d.2

/-- The file is that of the mountain range over the leaves. -/
def IsMmrFile (H : HashFunction) (leaves : List Digest) (s : FileNodeStore) : Prop :=
  ∃ nodes, Represents s nodes ∧ IsMmr H (hashes leaves) nodes

/-- The file has as many nodes as the mountain range. -/
lemma IsMmrFile.nodeCount_eq {leaves : List Digest} {s : FileNodeStore} (mmr : IsMmrFile H leaves s) :
    s.nodeCount = nodeCount leaves.length := by
  obtain ⟨nodes, rep, isMmr⟩ := mmr
  rw [rep.count, isMmr.length_eq, hashes, List.length_map]

/-- A leaf is appended to the file of a mountain range that is not too large. -/
theorem Represents.addLeaf {s : FileNodeStore} {nodes : List Bytes} (rep : Represents s nodes)
    {leaves : List Digest} (mmr : IsMmr H (hashes leaves) nodes) (small : s.nodeCount < maxMmrSize)
    (leaf : Digest) : ∃ new, Rust.addLeaf H fileNodeStore s leaf =
        .ok (fileNodeStore.appendNodes s new, s.nodeCount, new) ∧ Records new ∧
      IsMmr H (hashes (leaves ++ [leaf])) (nodes ++ new) := by
  have size : nodes.length = s.nodeCount := rep.count.symm
  have count : nodeCount (hashes leaves).length = s.nodeCount := by rw [← mmr.length_eq, size]
  obtain ⟨new, added, mmr'⟩ := mmr.addLeaf length_of_mem_hashes leaf.2 (by rwa [count])
  obtain ⟨_, -, added⟩ := bind_eq_ok.mp added
  obtain ⟨pks, existing, added⟩ := bind_eq_ok.mp added
  obtain ⟨new', loop, added⟩ := bind_eq_ok.mp added
  obtain rfl : new' = new := congrArg (fun r => r.2.2) (Except.ok.inj added)
  have existing' : existingPeaks s.nodeCount = .ok pks := by
    rw [size] at existing
    unfold Core.existingPeaks at existing
    unfold existingPeaks
    split at existing
    · next empty => rw [if_pos empty, Except.ok.inj existing]
    · next some_ => rw [if_neg some_, peaks_eq, existing, Except.toOption]
  rw [size] at loop
  have loop' := addLeafLoop_of_core loop
  have first : Records [leaf.1] := fun node mem => (List.mem_singleton.mp mem) ▸ leaf.2
  refine ⟨new', ?_, addLeafLoop_records first loop', ?_⟩
  · rw [Rust.addLeaf]
    show (existingPeaks s.nodeCount >>= _) = _
    rw [existing', ok_bind]
    show (addLeafLoop H fileNodeStore s s.nodeCount pks.reverse 0 leaf.1 [leaf.1] >>= _) = _
    rw [addLeafLoop_congr rep.node_eq, loop', ok_bind]
    rfl
  · rw [hashes, List.map_append]
    exact mmr'

/-- A leaf is added to the file of a tree. -/
lemma IsMmrFile.addLeaf {leaves : List Digest} {s : FileNodeStore} (mmr : IsMmrFile H leaves s)
    (small : s.nodeCount < maxMmrSize) (leaf : Digest) :
    ∃ r, Rust.addLeaf H fileNodeStore s leaf = .ok r ∧ IsMmrFile H (leaves ++ [leaf]) r.1 := by
  obtain ⟨nodes, rep, isMmr⟩ := mmr
  obtain ⟨new, added, records, isMmr'⟩ := rep.addLeaf isMmr small leaf
  exact ⟨_, added, nodes ++ new, rep.append records, isMmr'⟩

/-- A leaf is appended only to sizes that have peaks. -/
lemma exists_forest_of_addLeaf {s : FileNodeStore} {leaf : Digest} {r : FileNodeStore × ℕ × List Bytes}
    (ok : Rust.addLeaf H fileNodeStore s leaf = .ok r) :
    s.nodeCount < maxMmrSize ∧ ∃ n, s.nodeCount = nodeCount n := by
  obtain ⟨pks, existing, -⟩ := bind_eq_ok.mp ok
  have existing : existingPeaks s.nodeCount = .ok pks := existing
  unfold existingPeaks at existing
  split at existing
  · next empty => exact ⟨by rw [empty]; decide, 0, by rw [empty]; rfl⟩
  · split at existing
    · next pks' found =>
      obtain ⟨n, size, small, -⟩ := peaks_eq_some.mp found
      exact ⟨size ▸ small, n, size⟩
    · cases existing

/-- Whatever is appended to the file of a mountain range keeps it one. -/
lemma IsMmrFile.addLeaves {leaves : List Digest} {s : FileNodeStore} (mmr : IsMmrFile H leaves s)
    {more : List Digest} {s' : FileNodeStore} (ok : Rust.addLeaves H fileNodeStore s more = .ok s') :
    IsMmrFile H (leaves ++ more) s' := by
  induction more generalizing leaves s with
  | nil =>
    cases ok
    rwa [List.append_nil]
  | cons leaf more ih =>
    obtain ⟨r, added, ok⟩ := bind_eq_ok.mp ok
    obtain ⟨r', added', mmr'⟩ := mmr.addLeaf (exists_forest_of_addLeaf added).1 leaf
    obtain rfl : r' = r := Except.ok.inj (added'.symm.trans added)
    have grown := ih mmr' ok
    rwa [List.append_assoc, List.singleton_append] at grown

/-- What opening a file should give: the mountain range of the leaves, and whatever is appended later keeps it
a mountain range. `add_leaf` refuses what is not below `MAX_MMR_SIZE`. -/
structure Recovered (H : HashFunction) (leaves : List Digest) (s : FileNodeStore) : Prop where
  opened : IsMmrFile H leaves s
  later : ∀ more s', addLeaves H fileNodeStore s more = .ok s' → IsMmrFile H (leaves ++ more) s' ∧
    (s'.nodeCount < maxMmrSize → ∀ leaf, ∃ r, addLeaf H fileNodeStore s' leaf = .ok r ∧
      IsMmrFile H (leaves ++ more ++ [leaf]) r.1)

/-- The file of a tree is recovered. -/
lemma IsMmrFile.recovered {leaves : List Digest} {s : FileNodeStore} (mmr : IsMmrFile H leaves s) :
    Recovered H leaves s where
  opened := mmr
  later _ _ ok := ⟨mmr.addLeaves ok, fun small leaf => (mmr.addLeaves ok).addLeaf small leaf⟩

/-- The leaves before the crash, or with the one that was being appended. -/
def Recovers (H : HashFunction) (leaves : List Digest) (leaf : Digest) (file : Bytes) : Prop :=
  Recovered H leaves (FileNodeStore.open_ file).1 ∨ Recovered H (leaves ++ [leaf]) (FileNodeStore.open_ file).1

/-- The empty file is the tree of no leaves. -/
lemma isMmrFile_empty : IsMmrFile H [] (FileNodeStore.open_ []).1 :=
  ⟨[], ⟨rfl, rfl, nofun⟩, Core.isMmr_nil H⟩

/-- An interrupted append: the leaves that were there, the leaf and what `add_leaf` writes for it. -/
structure Interrupted (H : HashFunction) (leaves : List Digest) (leaf : Digest) (s : FileNodeStore)
    (new : List Bytes) : Prop where
  before : addLeaves H fileNodeStore (FileNodeStore.open_ []).1 leaves = .ok s
  added : ∃ s' pos, addLeaf H fileNodeStore s leaf = .ok (s', pos, new)

/-- What is on disk after a crash. -/
lemma Interrupted.crash {leaves : List Digest} {leaf : Digest} {s : FileNodeStore} {new : List Bytes}
    (during : Interrupted H leaves leaf s new) {written : ℕ} (le : written ≤ new.flatten.length) :
    ∃ nodes, IsMmr H (hashes leaves) nodes ∧ IsMmr H (hashes (leaves ++ [leaf])) (nodes ++ new) ∧
      Records new ∧
      Represents (FileNodeStore.open_ (s.crash new written)).1 (nodes ++ new.take (written / digestLen)) := by
  obtain ⟨s', pos, added⟩ := during.added
  obtain ⟨nodes, rep, mmr⟩ := isMmrFile_empty.addLeaves during.before
  rw [List.nil_append] at mmr
  obtain ⟨new', added', records, mmr'⟩ := rep.addLeaf mmr (exists_forest_of_addLeaf added).1 leaf
  obtain rfl : new' = new := congrArg (fun r => r.2.2) (Except.ok.inj (added'.symm.trans added))
  exact ⟨nodes, mmr, mmr', records, rep.crash records le⟩

/-- A crash that leaves no whole record, or all of them, is recovered from. -/
theorem Interrupted.recovers {leaves : List Digest} {leaf : Digest} {s : FileNodeStore} {new : List Bytes}
    (during : Interrupted H leaves leaf s new) {written : ℕ} (le : written ≤ new.flatten.length)
    (edge : written < digestLen ∨ written = new.flatten.length) :
    Recovers H leaves leaf (s.crash new written) := by
  obtain ⟨nodes, mmr, mmr', records, rep⟩ := during.crash le
  cases edge with
  | inl none =>
    rw [Nat.div_eq_of_lt none, List.take_zero, List.append_nil] at rep
    exact .inl (IsMmrFile.recovered ⟨nodes, rep, mmr⟩)
  | inr all =>
    have count : written / digestLen = new.length := by
      rw [all, records.length_flatten, Nat.mul_div_cancel _ (by decide)]
    rw [count, List.take_length] at rep
    exact .inr (IsMmrFile.recovered ⟨nodes ++ new, rep, mmr'⟩)

/-- A crash between two records leaves a size between those of two numbers of leaves. -/
lemma Interrupted.between {leaves : List Digest} {leaf : Digest} {s : FileNodeStore} {new : List Bytes}
    (during : Interrupted H leaves leaf s new) {written : ℕ} (some_ : digestLen ≤ written)
    (notAll : written < new.flatten.length) :
    nodeCount leaves.length < (FileNodeStore.open_ (s.crash new written)).1.nodeCount ∧
      (FileNodeStore.open_ (s.crash new written)).1.nodeCount < nodeCount (leaves.length + 1) := by
  obtain ⟨nodes, mmr, mmr', records, rep⟩ := during.crash notAll.le
  have positive : 0 < digestLen := by decide
  have few : written / digestLen < new.length := by
    rw [Nat.div_lt_iff_lt_mul positive, ← records.length_flatten]
    exact notAll
  have many : 0 < written / digestLen := Nat.div_pos some_ positive
  have before := mmr.length_eq
  have after := mmr'.length_eq
  rw [hashes, List.length_map] at before after
  rw [List.length_append, List.length_append, List.length_singleton] at after
  rw [rep.count, List.length_append, List.length_take_of_le few.le]
  omega

/-- Then the file is that of no mountain range, and no leaf can be appended to it. -/
theorem Interrupted.stuck {leaves : List Digest} {leaf : Digest} {s : FileNodeStore} {new : List Bytes}
    (during : Interrupted H leaves leaf s new) {written : ℕ} (some_ : digestLen ≤ written)
    (notAll : written < new.flatten.length) :
    (∀ leaves', ¬ IsMmrFile H leaves' (FileNodeStore.open_ (s.crash new written)).1) ∧
      ∀ leaf' r, addLeaf H fileNodeStore (FileNodeStore.open_ (s.crash new written)).1 leaf' ≠ .ok r := by
  obtain ⟨lt, lt'⟩ := during.between some_ notAll
  have noForest (n : ℕ) : (FileNodeStore.open_ (s.crash new written)).1.nodeCount ≠ nodeCount n := by
    intro size
    rw [size] at lt lt'
    have above := forestSize_strictMono.lt_iff_lt.mp lt
    have below := forestSize_strictMono.lt_iff_lt.mp lt'
    omega
  refine ⟨fun leaves' mmr => noForest _ mmr.nodeCount_eq, fun leaf' r ok => ?_⟩
  obtain ⟨-, n, size⟩ := exists_forest_of_addLeaf ok
  exact noForest n size

/-- The bytes that `add_leaf` writes for one more leaf. -/
def groupLength (leafCount : ℕ) : ℕ := (nodeCount (leafCount + 1) - nodeCount leafCount) * digestLen

/-- An interrupted append has written the nodes of one leaf. -/
lemma Interrupted.length_flatten {leaves : List Digest} {leaf : Digest} {s : FileNodeStore} {new : List Bytes}
    (during : Interrupted H leaves leaf s new) : new.flatten.length = groupLength leaves.length := by
  obtain ⟨nodes, mmr, mmr', records, -⟩ := during.crash (Nat.zero_le _)
  have before := mmr.length_eq
  have after := mmr'.length_eq
  rw [hashes, List.length_map] at before after
  rw [List.length_append, List.length_append, List.length_singleton] at after
  rw [records.length_flatten, groupLength, ← after, before, Nat.add_sub_cancel_left]

/-- The node file after a crash: it is that of a mountain range, and stays one, if and only if no whole record
of the leaf that was being appended has reached the disk, or all of them. -/
theorem recovers_iff {leaves : List Digest} {leaf : Digest} {s : FileNodeStore} {new : List Bytes}
    (during : Interrupted H leaves leaf s new) {written : ℕ} (le : written ≤ new.flatten.length) :
    Recovers H leaves leaf (s.crash new written) ↔
      written < digestLen ∨ written = groupLength leaves.length := by
  rw [← during.length_flatten]
  refine ⟨fun recovers => ?_, during.recovers le⟩
  by_contra inside
  rw [not_or, not_lt] at inside
  obtain ⟨noMmr, -⟩ := during.stuck inside.1 (lt_of_le_of_ne le inside.2)
  cases recovers with
  | inl before => exact noMmr _ before.opened
  | inr after => exact noMmr _ after.opened

/-- Two leaf hashes. -/
def firstLeaf : Digest := ⟨List.replicate 32 1, by decide⟩

def secondLeaf : Digest := ⟨List.replicate 32 2, by decide⟩

/-- The second leaf is being appended. -/
lemma exists_interrupted : ∃ s new, Interrupted sha256Hash [firstLeaf] secondLeaf s new := by
  have small : (FileNodeStore.open_ []).1.nodeCount < maxMmrSize := by decide
  obtain ⟨r, added, mmr⟩ := isMmrFile_empty.addLeaf (H := sha256Hash) small firstLeaf
  have small' : r.1.nodeCount < maxMmrSize := by
    rw [mmr.nodeCount_eq]
    decide +kernel
  obtain ⟨⟨s', pos, new⟩, added', -⟩ := mmr.addLeaf small' secondLeaf
  refine ⟨r.1, new, ?_, s', pos, added'⟩
  rw [addLeaves, added, ok_bind]
  rfl

/-- The second leaf adds two records. -/
lemma groupLength_one : groupLength [firstLeaf].length = 64 := by decide +kernel

/-- Both records of the second leaf are on disk. -/
theorem recovers_iff_all : ∃ s new, Interrupted sha256Hash [firstLeaf] secondLeaf s new ∧
    Recovers sha256Hash [firstLeaf] secondLeaf (s.crash new 64) := by
  obtain ⟨s, new, during⟩ := exists_interrupted
  have len := during.length_flatten.trans groupLength_one
  exact ⟨s, new, during, (recovers_iff during len.ge).mpr (.inr groupLength_one.symm)⟩

/-- One of the two records of the second leaf is on disk, and no leaf can be appended any more. -/
theorem not_recovers_between : ∃ s new, Interrupted sha256Hash [firstLeaf] secondLeaf s new ∧
    32 ≤ new.flatten.length ∧ ¬ Recovers sha256Hash [firstLeaf] secondLeaf (s.crash new 32) ∧
    ∀ leaf r, addLeaf sha256Hash fileNodeStore (FileNodeStore.open_ (s.crash new 32)).1 leaf ≠ .ok r := by
  obtain ⟨s, new, during⟩ := exists_interrupted
  have len := during.length_flatten.trans groupLength_one
  obtain ⟨noMmr, noLeaf⟩ := during.stuck (show digestLen ≤ 32 from le_rfl) (by omega : 32 < new.flatten.length)
  refine ⟨s, new, during, by omega, fun recovers => ?_, noLeaf⟩
  cases recovers with
  | inl before => exact noMmr _ before.opened
  | inr after => exact noMmr _ after.opened

end CLL.Rust
