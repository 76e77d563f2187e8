import BeagleKernel.Fat32.Volume
import BeagleKernel.Lib.Words

/-!
# The chain walk

A FAT lookup returns the link of the entry it reads, or one of three codes that are no cluster
(`nextCode`). `get_cluster_at_index` follows the chain as far as it has links
(`clusterAtIndexLoop_advance`); past the last one the code takes the place of a cluster, and only
an end of chain before the last link stops the walk (`clusterAtIndexLoop_broken`).
-/

namespace BeagleKernel.Fat32

variable (fs : Fat32Fs)

/-- What `fat32_get_next_cluster` makes of a FAT entry. -/
def entryCode : Option UInt32 → UInt32
  | none => fat32ErrorIo.toUInt32
  | some v =>
    if v ≥ 0x0FFFFFF8 then fat32EocMarker
    else if v = 0x0FFFFFF7 then fat32ErrorIo.toUInt32
    else if v < 2 then fat32ErrorCorruptedFs.toUInt32
    else v

/-- What `fat32_get_next_cluster` returns. -/
def nextCode (c : UInt32) : UInt32 := entryCode (fatEntry fs c)

theorem mul_four_toNat (c : UInt32) : (c * 4).toNat = fatByte c := by
  rw [UInt32.toNat_mul, fatByte, Nat.mul_comm]
  rfl

theorem entryOffset_eq (c : UInt32) : entryOffset c = fatByte c % fat32SectorSize := by
  rw [entryOffset, UInt32.toNat_mod, mul_four_toNat]
  rfl

theorem fatSector_eq (c : UInt32) : fatSector fs c =
    fs.fatStartSector + UInt32.ofNat (fatByte c / fat32SectorSize) := by
  have hdiv : c * 4 / 512 = UInt32.ofNat (fatByte c / fat32SectorSize) := by
    rw [← UInt32.toNat_inj, UInt32.toNat_div, mul_four_toNat, UInt32.toNat_ofNat_lt]
    · rfl
    · have hlt : fatByte c < 2 ^ 32 := Nat.mod_lt _ (by decide)
      exact Nat.lt_of_le_of_lt (Nat.div_le_self _ _) hlt
  rw [fatSector, hdiv, UInt32.add_comm]

/-- The driver looks for a cluster's entry where it is. -/
theorem fatEntry_eq (c : UInt32) : fatEntry fs c =
    (fs.disk.readSector (fatSector fs c)).map fun s => s.le32 (entryOffset c) &&& 0x0FFFFFFF := by
  rw [fatEntry, fatSector_eq, entryOffset_eq]

theorem entryOffset_lt (c : UInt32) : entryOffset c + 3 < fat32SectorSize := by
  have h4 : fatByte c % 4 = 0 := by
    unfold fatByte
    omega
  have hoff : entryOffset c = fatByte c % 512 := entryOffset_eq c
  show entryOffset c + 3 < 512
  omega

theorem index_of_lt {s : Sector} {i : ℕ} (h : i < fat32SectorSize) :
    s.index i = pure (s.byte i) := by
  unfold Sector.index
  rw [if_pos h]

theorem fat32GetNextCluster_eq (pos : ℕ) (c : UInt32) :
    fat32GetNextCluster fs pos c = ⟨.ok (nextCode fs c), [.fat pos c (fatSector fs c)]⟩ := by
  have hoff := entryOffset_lt c
  unfold fat32GetNextCluster Fat32Fs.readSector nextCode
  rw [Traced.event_bind, fatEntry_eq]
  simp only [Access.sector]
  rcases fs.disk.readSector (fatSector fs c) with _ | s
  · rfl
  · simp only [index_of_lt (show entryOffset c < fat32SectorSize by omega),
      index_of_lt (show entryOffset c + 1 < fat32SectorSize by omega),
      index_of_lt (show entryOffset c + 2 < fat32SectorSize by omega),
      index_of_lt hoff, Traced.pure_bind, Option.map_some, Sector.le32, entryCode]
    split_ifs <;> rfl

theorem entryCode_of_link {v : UInt32} (h : 2 ≤ v ∧ v < 0x0FFFFFF7) : entryCode (some v) = v := by
  obtain ⟨h2, h7⟩ := h
  rw [UInt32.le_iff_toNat_le] at h2
  rw [UInt32.lt_iff_toNat_lt] at h7
  simp only [UInt32.reduceToNat] at h2 h7
  unfold entryCode
  simp only [ge_iff_le, UInt32.le_iff_toNat_le, UInt32.lt_iff_toNat_lt, ← UInt32.toNat_inj,
    UInt32.reduceToNat]
  rw [if_neg (by omega), if_neg (by omega), if_neg (by omega)]

theorem link_eq_some_iff {c v : UInt32} :
    link fs c = some v ↔ fatEntry fs c = some v ∧ 2 ≤ v ∧ v < 0x0FFFFFF7 := by
  unfold link
  rw [Option.filter_eq_some_iff, decide_eq_true_eq]

theorem nextCode_of_link {c v : UInt32} (h : link fs c = some v) : nextCode fs c = v := by
  obtain ⟨he, hv⟩ := (link_eq_some_iff fs).1 h
  unfold nextCode
  rw [he, entryCode_of_link hv]

theorem link_lt {c v : UInt32} (h : link fs c = some v) : 2 ≤ v.toNat ∧ v.toNat < 0x0FFFFFF7 := by
  obtain ⟨-, h2, h7⟩ := (link_eq_some_iff fs).1 h
  exact ⟨UInt32.le_iff_toNat_le.1 h2, UInt32.lt_iff_toNat_lt.1 h7⟩

theorem nextCode_ne_eoc {c v : UInt32} (h : link fs c = some v) :
    nextCode fs c ≠ fat32EocMarker := by
  rw [nextCode_of_link fs h]
  rintro rfl
  exact absurd (link_lt fs h) (by decide)

/-! ## The walk to an index -/

/-- The lookups of the first `n` clusters of the chain `c` heads, `i` links into a longer one. -/
def walkLog (c : UInt32) (i : ℕ) : ℕ → List Access
  | 0 => []
  | n + 1 =>
    .fat i c (fatSector fs c) :: (match link fs c with
      | none => []
      | some d => walkLog d (i + 1) n)

theorem walkLog_chain {start : UInt32} :
    ∀ {n i : ℕ} {c : UInt32}, chain fs start i = some c → ∀ a ∈ walkLog fs c i n,
      chain fs start a.pos = some a.cluster
  | 0, i, c, _, a, h => by simp [walkLog] at h
  | n + 1, i, c, hc, a, h => by
    simp only [walkLog, List.mem_cons] at h
    rcases h with rfl | h
    · exact hc
    · split at h
      · simp at h
      · rename_i d hd
        refine walkLog_chain (i := i + 1) ?_ a h
        rw [← hd]
        exact walk_succ_of _ hc

/-- Along links the walk goes on, and looks up each cluster it passes. -/
theorem clusterAtIndexLoop_advance (index : UInt32) :
    ∀ {p left : ℕ} {i c d : UInt32}, walk (link fs) c p = some d → p ≤ left →
      i.toNat + left = index.toNat →
      clusterAtIndexLoop fs index left i c =
        ⟨(clusterAtIndexLoop fs index (left - p) (i + UInt32.ofNat p) d).val,
          walkLog fs c i.toNat p ++
            (clusterAtIndexLoop fs index (left - p) (i + UInt32.ofNat p) d).log⟩
  | 0, left, i, c, d, h, _, _ => by
    rw [walk_zero, Option.some.injEq] at h
    subst h
    simp [walkLog]
  | p + 1, 0, i, c, d, _, hle, _ => by omega
  | p + 1, left + 1, i, c, d, h, hle, hi => by
    rw [walk_succ', Option.bind_eq_some_iff] at h
    obtain ⟨v, hv, h⟩ := h
    have hlt := index.toNat_lt
    have hi1 : (i + 1).toNat = i.toNat + 1 := UInt32.toNat_add_of_lt (by simp; omega)
    have hne := nextCode_ne_eoc fs hv
    have ih := clusterAtIndexLoop_advance index (i := i + 1) h (show p ≤ left by omega)
      (by omega)
    have hip : i + 1 + UInt32.ofNat p = i + UInt32.ofNat (p + 1) := by
      rw [UInt32.ofNat_add, UInt32.add_assoc, UInt32.add_comm (UInt32.ofNat p)]
      rfl
    rw [clusterAtIndexLoop, fat32GetNextCluster_eq, Traced.bind_of_ok rfl,
      if_neg (fun hc => hne hc.1), nextCode_of_link fs hv, ih, hip, hi1,
      show left + 1 - (p + 1) = left - p by omega]
    simp [walkLog, hv]

theorem walkLog_add :
    ∀ {p i : ℕ} {c d : UInt32}, walk (link fs) c p = some d → ∀ n,
      walkLog fs c i (p + n) = walkLog fs c i p ++ walkLog fs d (i + p) n
  | 0, i, c, d, h, n => by
    rw [walk_zero, Option.some.injEq] at h
    subst h
    simp [walkLog]
  | p + 1, i, c, d, h, n => by
    rw [walk_succ', Option.bind_eq_some_iff] at h
    obtain ⟨v, hv, h⟩ := h
    rw [show p + 1 + n = p + n + 1 by omega]
    simp only [walkLog, hv, List.cons_append]
    rw [walkLog_add h n, show i + 1 + p = i + (p + 1) by omega]

theorem walkLog_broken {c : UInt32} {i n : ℕ} (h : link fs c = none) :
    walkLog fs c i (n + 1) = [.fat i c (fatSector fs c)] := by
  simp [walkLog, h]

section ClusterAtIndex

variable {start index : UInt32} (hstart : 3 ≤ start.toNat)

include hstart

theorem getClusterAtIndex_loop :
    getClusterAtIndex fs start index = clusterAtIndexLoop fs index index.toNat 0 start := by
  unfold getClusterAtIndex
  rw [if_neg]
  rw [UInt32.le_iff_toNat_le]
  simp only [UInt32.reduceToNat]
  omega

theorem getClusterAtIndex_chain {c : UInt32} (h : chain fs start index.toNat = some c) :
    getClusterAtIndex fs start index = ⟨.ok (.ok c), walkLog fs start 0 index.toNat⟩ := by
  rw [getClusterAtIndex_loop fs hstart,
    clusterAtIndexLoop_advance fs index h le_rfl (Nat.zero_add _), Nat.sub_self]
  simp [clusterAtIndexLoop]

/-- The walk up to a cluster without a link, where there is more to go. -/
theorem getClusterAtIndex_upto {p : ℕ} {d : UInt32} (hp : chain fs start p = some d)
    (hd : link fs d = none) (hlt : p < index.toNat) :
    getClusterAtIndex fs start index =
      if nextCode fs d = fat32EocMarker ∧ p + 1 < index.toNat then
        ⟨.ok (.error fat32ErrorCorruptedFs), walkLog fs start 0 (p + 1)⟩
      else
        ⟨(clusterAtIndexLoop fs index (index.toNat - (p + 1)) (UInt32.ofNat (p + 1))
            (nextCode fs d)).val,
          walkLog fs start 0 (p + 1) ++ (clusterAtIndexLoop fs index (index.toNat - (p + 1))
            (UInt32.ofNat (p + 1)) (nextCode fs d)).log⟩ := by
  have hi := index.toNat_lt
  have hpn : (UInt32.ofNat p).toNat = p := UInt32.toNat_ofNat_lt (by omega)
  have hi1 : (index - 1).toNat = index.toNat - 1 :=
    UInt32.toNat_sub_of_toNat_le (by simp; omega)
  have hlast : UInt32.ofNat p < index - 1 ↔ p + 1 < index.toNat := by
    rw [UInt32.lt_iff_toNat_lt, hpn, hi1]
    omega
  have hlog : walkLog fs start 0 (p + 1) =
      walkLog fs start 0 p ++ [.fat p d (fatSector fs d)] := by
    rw [walkLog_add fs hp 1, walkLog_broken fs hd, Nat.zero_add]
  obtain ⟨n, hn⟩ : ∃ n, index.toNat - p = n + 1 := ⟨index.toNat - p - 1, by omega⟩
  rw [getClusterAtIndex_loop fs hstart,
    clusterAtIndexLoop_advance fs index hp hlt.le (Nat.zero_add _), hn, hlog,
    show index.toNat - (p + 1) = n by omega]
  simp only [UInt32.zero_add, clusterAtIndexLoop, fat32GetNextCluster_eq, hpn]
  rw [Traced.bind_of_ok rfl, show UInt32.ofNat p + 1 = UInt32.ofNat (p + 1) from
    (UInt32.ofNat_add p 1).symm]
  simp only [hlast]
  split_ifs <;> simp

/-- A chain that ends one link short of `index` gives the code of its last lookup as the
target. -/
theorem getClusterAtIndex_last {p : ℕ} {d : UInt32} (hp : chain fs start p = some d)
    (hd : link fs d = none) (hlt : p + 1 = index.toNat) :
    getClusterAtIndex fs start index =
      ⟨.ok (.ok (nextCode fs d)), walkLog fs start 0 index.toNat⟩ := by
  rw [getClusterAtIndex_upto fs hstart hp hd (by omega), if_neg (by omega), ← hlt, Nat.sub_self]
  simp [clusterAtIndexLoop]

/-- An end of chain further from `index` is an error. -/
theorem getClusterAtIndex_eoc {p : ℕ} {d : UInt32} (hp : chain fs start p = some d)
    (hd : link fs d = none) (hlt : p + 1 < index.toNat) (he : nextCode fs d = fat32EocMarker) :
    getClusterAtIndex fs start index =
      ⟨.ok (.error fat32ErrorCorruptedFs), walkLog fs start 0 (p + 1)⟩ := by
  rw [getClusterAtIndex_upto fs hstart hp hd (by omega), if_pos ⟨he, hlt⟩]

/-- Any other broken link further from `index` is looked up in turn. -/
theorem getClusterAtIndex_broken {p : ℕ} {d : UInt32} (hp : chain fs start p = some d)
    (hd : link fs d = none) (hlt : p + 1 < index.toNat) (he : nextCode fs d ≠ fat32EocMarker) :
    .fat (p + 1) (nextCode fs d) (fatSector fs (nextCode fs d)) ∈
      (getClusterAtIndex fs start index).log := by
  have hpn : (UInt32.ofNat (p + 1)).toNat = p + 1 :=
    UInt32.toNat_ofNat_lt (by have := index.toNat_lt; omega)
  obtain ⟨n, hn⟩ : ∃ n, index.toNat - (p + 1) = n + 1 := ⟨index.toNat - (p + 1) - 1, by omega⟩
  rw [getClusterAtIndex_upto fs hstart hp hd (by omega), if_neg (fun h => he h.1), hn]
  refine List.mem_append_right _ ?_
  rw [clusterAtIndexLoop, fat32GetNextCluster_eq, Traced.bind_of_ok rfl, hpn]
  exact List.mem_cons_self

end ClusterAtIndex

end BeagleKernel.Fat32
