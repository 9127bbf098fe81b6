import Mathlib
import PathPolicy.Proofs.TopologyCalls

/-! Interfaces of links that were made without being given any. The number of the link is in their
addresses, and their names count the links of a router. -/

namespace PathPolicy

namespace Address

/-- Under the mask of a network with 24 bits the last octet is lost. -/
theorem and_mask_eq_iff {a b : Ipv4} :
    a &&& BitVec.allOnes 32 <<< 8 = b &&& BitVec.allOnes 32 <<< 8 ↔
      a.toNat / 256 = b.toNat / 256 := by
  have hand : ∀ a : Ipv4, (a &&& BitVec.allOnes 32 <<< 8).toNat = a.toNat / 256 * 256 := by
    intro a
    have hlt := a.isLt
    rw [← BitVec.shiftLeft_ushiftRight, BitVec.toNat_shiftLeft, BitVec.toNat_ushiftRight,
      Nat.shiftRight_eq_div_pow, Nat.shiftLeft_eq]
    omega
  constructor
  · intro h
    have hnat := congrArg BitVec.toNat h
    rw [hand, hand] at hnat
    omega
  · intro h
    refine BitVec.eq_of_toNat_eq ?_
    rw [hand, hand, h]

end Address

namespace Topology

theorem toNat_linkAddress {n host : Nat} (h : host < 256) :
    (linkAddress n host).ip.toNat = (10 * 65536 + n % 65536) * 256 + host := by
  have hip : (linkAddress n host).ip = Ipv4.ofOctets 10 (n / 256 % 256) (n % 256) host := rfl
  rw [hip, Ipv4.ofOctets, BitVec.toNat_ofNat]
  omega

theorem sameNetwork_linkAddress_iff {n m i j : Nat} (hi : i < 256) (hj : j < 256) :
    (linkAddress n i).sameNetwork (linkAddress m j) = true ↔ n % 65536 = m % 65536 := by
  have hmask : (linkAddress n i).mask = BitVec.allOnes 32 <<< 8 := rfl
  rw [Address.sameNetwork, decide_eq_true_eq, hmask, Address.and_mask_eq_iff, toNat_linkAddress hi,
    toNat_linkAddress hj]
  omega

theorem linkAddress_inj {n m i j : Nat} (hi : i < 256) (hj : j < 256)
    (h : linkAddress n i = linkAddress m j) : n % 65536 = m % 65536 ∧ i = j := by
  have hnat : (linkAddress n i).ip.toNat = (linkAddress m j).ip.toNat := by rw [h]
  rw [toNat_linkAddress hi, toNat_linkAddress hj] at hnat
  omega

end Topology

namespace Link

def interfaces (l : Link) : List Interface := [l.first, l.second]

end Link

namespace Topology

/-- The interfaces of a router in the order of its links. -/
def interfacesOf (t : Topology) (r : RouterId) : List Interface :=
  t.links.filterMap (·.endpoint? r)

/-- None of the calls has made a link with interfaces that it was given. -/
def MadeByConnect (calls : List Call) : Prop :=
  ∀ i e f, calls[i]? = some (.link e f) →
    (after (calls.take (i + 1))).links = (after (calls.take i)).links

structure Numbered (t : Topology) : Prop where
  addresses : ∀ n l, t.links[n]? = some l →
    l.first.address = linkAddress n 1 ∧ l.second.address = linkAddress n 2
  names : ∀ r, (t.interfacesOf r).map (·.name) =
    (List.range (t.interfacesOf r).length).map fun k => s!"eth{k}"

variable {t t' : Topology} {calls : List Call} {c : Call}

theorem length_interfacesOf (t : Topology) (r : RouterId) :
    (t.interfacesOf r).length = t.degree r := by
  have hsome : ∀ l : Link, (l.endpoint? r).isSome = ((l.opposite? r).map (·.router)).isSome := by
    intro l
    by_cases hfirst : l.first.router = r
    · simp [Link.endpoint?, Link.opposite?, hfirst]
    · by_cases hsecond : l.second.router = r <;>
        simp [Link.endpoint?, Link.opposite?, hfirst, hsecond]
  rw [interfacesOf, degree, neighborIds, List.length_filterMap_eq_countP,
    List.length_filterMap_eq_countP]
  simp only [hsome]

theorem MadeByConnect.of_concat (h : MadeByConnect (calls ++ [c])) : MadeByConnect calls := by
  intro i e f hi
  have hlt := (List.getElem?_eq_some_iff.mp hi).1
  have hlinks := h i e f (by rw [List.getElem?_append_left hlt, hi])
  rwa [List.take_append_of_le_length (by omega), List.take_append_of_le_length (by omega)] at hlinks

theorem MadeByConnect.links_eq {e f : Endpoint} (h : MadeByConnect (calls ++ [.link e f])) :
    ((after calls).step (.link e f)).links = (after calls).links := by
  have hlinks := h calls.length e f (by simp)
  rw [List.take_of_length_le (by simp), List.take_left, after_concat] at hlinks
  exact hlinks

/-- A new link has the next number, and the next name at both of its ends. -/
theorem Numbered.connect {x y : RouterId} {a b : String} (h : t.Numbered) (hne : x ≠ y)
    (hlinks : t'.links = t.links ++
      [linkOf x y ⟨a, s!"eth{t.degree x}", linkAddress t.links.length 1⟩
        ⟨b, s!"eth{t.degree y}", linkAddress t.links.length 2⟩]) : t'.Numbered := by
  constructor
  · intro n l hl
    rw [hlinks] at hl
    by_cases hn : n < t.links.length
    · rw [List.getElem?_append_left hn] at hl
      exact h.addresses n l hl
    · have hlt := (List.getElem?_eq_some_iff.mp hl).1
      have hnlen : n = t.links.length := by
        rw [List.length_append, List.length_singleton] at hlt
        omega
      subst hnlen
      rw [List.getElem?_concat_length] at hl
      obtain rfl := Option.some.inj hl
      exact ⟨rfl, rfl⟩
  · intro r
    have hnext : ∀ i : Interface, t'.interfacesOf r = t.interfacesOf r ++ [i] →
        i.name = s!"eth{t.degree r}" → (t'.interfacesOf r).map (·.name) =
          (List.range (t'.interfacesOf r).length).map fun k => s!"eth{k}" := by
      intro i hi hname
      rw [hi, List.map_append, h.names r, List.length_append, List.length_singleton,
        List.range_succ, List.map_append, List.map_singleton, List.map_singleton, hname,
        length_interfacesOf]
    have hof : t'.interfacesOf r = t.interfacesOf r ++
        [linkOf x y ⟨a, s!"eth{t.degree x}", linkAddress t.links.length 1⟩
          ⟨b, s!"eth{t.degree y}", linkAddress t.links.length 2⟩].filterMap (·.endpoint? r) := by
      rw [interfacesOf, hlinks, List.filterMap_append]
      rfl
    by_cases hx : x = r
    · subst hx
      exact hnext _ (by simpa [linkOf, Link.endpoint?] using hof) rfl
    · by_cases hy : y = r
      · subst hy
        exact hnext _ (by simpa [linkOf, Link.endpoint?, hne] using hof) rfl
      · have hsame : t'.interfacesOf r = t.interfacesOf r := by
          simpa [linkOf, Link.endpoint?, hx, hy] using hof
        rw [hsame]
        exact h.names r

theorem Numbered.of_links_eq (h : t.Numbered) (hlinks : t'.links = t.links) : t'.Numbered := by
  have hof : ∀ r, t'.interfacesOf r = t.interfacesOf r := fun r => by
    rw [interfacesOf, interfacesOf, hlinks]
  exact ⟨fun n l hl => h.addresses n l (hlinks ▸ hl), fun r => by rw [hof]; exact h.names r⟩

theorem MadeByConnect.numbered (h : MadeByConnect calls) : (after calls).Numbered := by
  induction calls using List.reverseRecOn with
  | nil => exact ⟨by simp [after, empty], by simp [after, empty, interfacesOf]⟩
  | append_singleton calls c ih =>
    have hold := ih h.of_concat
    rw [after_concat]
    rcases step_cases (after calls) c with hstep | ⟨_, _, _, _, _, hlinks⟩ |
      ⟨e, f, x, y, hends, hx, hy, _, _, hlinks⟩
    · rwa [hstep]
    · exact hold.of_links_eq hlinks
    · have hne : x ≠ y :=
        (((after calls).step c).links_join (linkOf x y e f) (by simp [hlinks])).2.2
      cases c with
      | router r => cases hends
      | link e f =>
        have hlen := congrArg List.length (h.links_eq.symm.trans hlinks)
        simp at hlen
      | connect a b =>
        obtain ⟨r, hr, hends⟩ := Option.bind_eq_some_iff.mp hends
        obtain ⟨s, hs, hends⟩ := Option.bind_eq_some_iff.mp hends
        obtain ⟨rfl, rfl⟩ := Prod.mk.inj (Option.some.inj hends)
        obtain rfl : r = x := Option.some.inj (hr.symm.trans hx)
        obtain rfl : s = y := Option.some.inj (hs.symm.trans hy)
        exact hold.connect hne hlinks

theorem Numbered.exists_host (h : t.Numbered) {n : Nat} {l : Link} {i : Interface}
    (hl : t.links[n]? = some l) (hi : i ∈ l.interfaces) :
    ∃ host < 256, i.address = linkAddress n host := by
  obtain ⟨hfirst, hsecond⟩ := h.addresses n l hl
  have hi : i = l.first ∨ i = l.second := by simpa [Link.interfaces] using hi
  rcases hi with rfl | rfl
  · exact ⟨1, by omega, hfirst⟩
  · exact ⟨2, by omega, hsecond⟩

theorem Numbered.sameNetwork_iff (h : t.Numbered) (hlen : t.links.length ≤ 65536) {l m : Link}
    {i j : Interface} (hl : l ∈ t.links) (hm : m ∈ t.links) (hi : i ∈ l.interfaces)
    (hj : j ∈ m.interfaces) : i.address.sameNetwork j.address = true ↔ l = m := by
  obtain ⟨n, hn⟩ := List.mem_iff_getElem?.mp hl
  obtain ⟨x, hx, hix⟩ := h.exists_host hn hi
  constructor
  · intro hsame
    obtain ⟨k, hk⟩ := List.mem_iff_getElem?.mp hm
    obtain ⟨y, hy, hjy⟩ := h.exists_host hk hj
    rw [hix, hjy, sameNetwork_linkAddress_iff hx hy] at hsame
    have hnlt := (List.getElem?_eq_some_iff.mp hn).1
    have hklt := (List.getElem?_eq_some_iff.mp hk).1
    obtain rfl : n = k := by omega
    exact Option.some.inj (hn.symm.trans hk)
  · rintro rfl
    obtain ⟨y, hy, hjy⟩ := h.exists_host hn hj
    rw [hix, hjy, sameNetwork_linkAddress_iff hx hy]

theorem Numbered.addresses_nodup (h : t.Numbered) (hlen : t.links.length ≤ 65536) :
    ((t.links.flatMap Link.interfaces).map (·.address)).Nodup := by
  rw [List.map_flatMap, List.nodup_flatMap]
  constructor
  · intro l hl
    obtain ⟨n, hn⟩ := List.mem_iff_getElem?.mp hl
    obtain ⟨hfirst, hsecond⟩ := h.addresses n l hn
    have hne : linkAddress n 1 ≠ linkAddress n 2 := fun he => by
      have hhost := (linkAddress_inj (by omega) (by omega) he).2
      omega
    simp [Link.interfaces, hfirst, hsecond, hne]
  · refine List.pairwise_iff_getElem.mpr fun n k hn hk hlt x hx hy => ?_
    obtain ⟨i, hi, rfl⟩ := List.mem_map.mp hx
    obtain ⟨j, hj, hji⟩ := List.mem_map.mp hy
    obtain ⟨y, hy, hiy⟩ := h.exists_host (List.getElem?_eq_getElem hn) hi
    obtain ⟨z, hz, hjz⟩ := h.exists_host (List.getElem?_eq_getElem hk) hj
    rw [hiy, hjz] at hji
    have hmod := (linkAddress_inj hz hy hji).1
    omega

theorem eth_nodup (n : Nat) : ((List.range n).map fun k => s!"eth{k}").Nodup := by
  refine List.nodup_range.map fun i j h => ?_
  have hdigits : Nat.toDigits 10 i = Nat.toDigits 10 j := by
    simpa using congrArg String.toList h
  exact Nat.repr_inj.mp (congrArg String.ofList hdigits)

/-- Interfaces of links that were made by `connect` do not collide. -/
theorem generated_distinct (h : MadeByConnect calls)
    (hlen : (after calls).links.length ≤ 65536) :
    (((after calls).links.flatMap Link.interfaces).map (·.address)).Nodup ∧
      (∀ l ∈ (after calls).links, ∀ m ∈ (after calls).links, ∀ i ∈ l.interfaces,
        ∀ j ∈ m.interfaces, i.address.sameNetwork j.address = true ↔ l = m) ∧
      ∀ r, ((after calls).interfacesOf r).map (·.name) =
          (List.range ((after calls).degree r)).map (fun k => s!"eth{k}") ∧
        (((after calls).interfacesOf r).map (·.name)).Nodup := by
  have hnumbered := h.numbered
  refine ⟨hnumbered.addresses_nodup hlen,
    fun l hl m hm i hi j hj => hnumbered.sameNetwork_iff hlen hl hm hi hj, fun r => ?_⟩
  have hnames := hnumbered.names r
  rw [length_interfacesOf] at hnames
  exact ⟨hnames, hnames ▸ eth_nodup _⟩

end Topology

namespace Network.Star

open PathPolicy.Topology

/-- `S` is linked to `A` and to `B`. The calls between `connect "S" "A"` and the last one fail. -/
def calls : List Call :=
  [.router ⟨"S", none, []⟩, .router ⟨"A", none, []⟩, .router ⟨"B", none, []⟩, .connect "S" "A",
    .link ⟨"S", "eth1", linkAddress 7 1⟩ ⟨"S", "eth2", linkAddress 7 2⟩, .connect "S" "E",
    .connect "A" "S", .connect "B" "S"]

theorem calls_madeByConnect : MadeByConnect calls := by
  intro i e f h
  have hi := (List.getElem?_eq_some_iff.mp h).1
  have hi : i < 8 := hi
  interval_cases i <;> simp [calls] at h
  decide +kernel

theorem generated_distinct_star :
    (((after calls).links.flatMap Link.interfaces).map (·.address)).Nodup ∧
      ((after calls).interfacesOf 0).map (·.name) = ["eth0", "eth1"] := by
  obtain ⟨haddresses, _, hnames⟩ := generated_distinct calls_madeByConnect (by decide +kernel)
  exact ⟨haddresses, (hnames 0).1.trans (by decide +kernel)⟩

end Network.Star

end PathPolicy
