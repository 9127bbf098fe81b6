import PathPolicy.Proofs.Legibility

/-! The text of the devices of a model is read without error, and everything about policies that was
written is read back, in the order in which it was written, and nothing else. -/

namespace PathPolicy

open ConfigReader

namespace BgpNeighborConfig

variable {router : String} {n : BgpNeighborConfig} {ns : List BgpNeighborConfig}
  {ps : List ParsedNeighbor}

theorem text_injective {i j : Ipv4} (h : i.text = j.text) : i = j := by
  have hi := i.ofChars?_text
  rw [h, j.ofChars?_text] at hi
  exact (Option.some.inj hi).symm

theorem record_of_fresh (h : ∀ p ∈ ps, p.node = router → p.ip ≠ n.ip.text) :
    n.record router ps = n.parsed router :: ps := by
  have hfresh : ∀ p ∈ ps, ParsedNeighbor.isAbout router n.ip.text p = false := by
    intro p hp
    rw [ParsedNeighbor.isAbout, Bool.and_eq_false_imp]
    simpa using h p hp
  rw [record, ParsedNeighbor.touch_of_fresh hfresh]
  rfl

/-- Sessions with different addresses get an entry each. -/
theorem foldl_record (hips : ns.Pairwise fun m n => m.ip ≠ n.ip)
    (h : ∀ p ∈ ps, p.node ≠ router ∨ ∀ n ∈ ns, p.ip ≠ n.ip.text) :
    ns.foldl (record router) ps = (ns.map (·.parsed router)).reverse ++ ps := by
  induction ns generalizing ps with
  | nil => rfl
  | cons n ns ih =>
    obtain ⟨hn, hips⟩ := List.pairwise_cons.mp hips
    have hrecord : n.record router ps = n.parsed router :: ps :=
      record_of_fresh fun p hp hnode => (h p hp).elim (absurd hnode) fun hne => hne n (by simp)
    rw [List.foldl_cons, hrecord, ih hips fun p hp => ?_]
    · simp
    -- the new entry is not about a later session, whose address is another one
    · rcases List.mem_cons.mp hp with rfl | hp
      · exact .inr fun m hm he => hn m hm (text_injective he)
      · exact (h p hp).imp_right fun hne m hm => hne m (by simp [hm])

end BgpNeighborConfig

namespace ParsedConfig

variable {ds : List DeviceConfig}

def sessionsOf (d : DeviceConfig) : List ParsedNeighbor :=
  d.bgp.toList.flatMap fun b => b.neighbors.map (·.parsed d.name)

theorem node_of_mem_sessionsOf {d : DeviceConfig} {p : ParsedNeighbor} (h : p ∈ sessionsOf d) :
    p.node = d.name := by
  obtain ⟨b, -, h⟩ := List.mem_flatMap.mp h
  obtain ⟨n, -, rfl⟩ := List.mem_map.mp h
  rfl

theorem foldl_record_device {d : DeviceConfig} {ps : List ParsedNeighbor}
    (hips : ∀ b ∈ d.bgp, b.neighbors.Pairwise fun m n => m.ip ≠ n.ip)
    (hnodes : ∀ p ∈ ps, p.node ≠ d.name) :
    (d.bgp.toList.flatMap (·.neighbors)).foldl (BgpNeighborConfig.record d.name) ps =
      (sessionsOf d).reverse ++ ps := by
  cases hb : d.bgp with
  | none => simp [sessionsOf, hb]
  | some b =>
    have hfold := BgpNeighborConfig.foldl_record (hips b hb) fun p hp => .inl (hnodes p hp)
    simpa [sessionsOf, hb] using hfold

theorem foldl_record_devices {ps : List ParsedNeighbor} (hnames : (ds.map (·.name)).Nodup)
    (hips : ∀ d ∈ ds, ∀ b ∈ d.bgp, b.neighbors.Pairwise fun m n => m.ip ≠ n.ip)
    (hnodes : ∀ p ∈ ps, ∀ d ∈ ds, p.node ≠ d.name) :
    ds.foldl (fun ps d =>
      (d.bgp.toList.flatMap (·.neighbors)).foldl (BgpNeighborConfig.record d.name) ps) ps =
        (ds.flatMap sessionsOf).reverse ++ ps := by
  induction ds generalizing ps with
  | nil => rfl
  | cons d ds ih =>
    obtain ⟨hd, hnames⟩ := List.nodup_cons.mp hnames
    have hdevice := foldl_record_device (hips d (by simp)) fun p hp => hnodes p hp d (by simp)
    have hnodes' : ∀ p ∈ (sessionsOf d).reverse ++ ps, ∀ e ∈ ds, p.node ≠ e.name := by
      intro p hp e he
      rcases List.mem_append.mp hp with hp | hp
      · rw [node_of_mem_sessionsOf (List.mem_reverse.mp hp)]
        exact fun heq => hd (List.mem_map.mpr ⟨e, he, heq.symm⟩)
      · exact hnodes p hp e (by simp [he])
    rw [List.foldl_cons, hdevice, ih hnames (fun e he => hips e (by simp [he])) hnodes']
    simp

theorem neighbors_ofDevices (hnames : (ds.map (·.name)).Nodup)
    (hips : ∀ d ∈ ds, ∀ b ∈ d.bgp, b.neighbors.Pairwise fun m n => m.ip ≠ n.ip) :
    (ofDevices ds).neighbors = ds.flatMap sessionsOf := by
  have hfold := foldl_record_devices hnames hips (List.forall_mem_nil _)
  rw [ofDevices, hfold]
  simp

end ParsedConfig

/-- What is read of a clause of a route map. The route map is that of the session with the neighbor,
in this direction. -/
structure ParsedClause.Recovers (k : ParsedClause) (d : DeviceConfig) (m : RouteMapConfig)
    (c : ClauseConfig) : Prop where
  node : k.node = d.name
  routeMap : m.name = routeMapName d.name k.neighbor k.direction
  session : ∃ b ∈ d.bgp, ∃ n ∈ b.neighbors, n.name = k.neighbor ∧
    m.name = match k.direction with
      | .incoming => n.routeMapIn
      | .outgoing => n.routeMapOut
  verdict : k.verdict = c.verdict
  seq : k.seq = c.seq
  conditions : k.conditions = c.conditions
  actions : k.actions = c.actions

/-- Nothing about the policies of the devices is lost, and nothing is added. -/
structure ParsedConfig.Recovers (p : ParsedConfig) (ds : List DeviceConfig) : Prop where
  devices : p.devices = ds.map (·.name)
  clauses : List.Forall₂ (fun k (x : DeviceConfig × RouteMapConfig × ClauseConfig) =>
    k.Recovers x.1 x.2.1 x.2.2) p.clauses
      (ds.flatMap fun d => d.routeMaps.flatMap fun m => m.clauses.map fun c => (d, m, c))
  prefixLists : p.prefixLists = ds.flatMap fun d => d.prefixLists.flatMap fun l =>
    l.networks.map fun network => ⟨d.name, l.name, network⟩
  bgp : p.bgp = ds.flatMap fun d => d.bgp.toList.map fun b =>
    ⟨d.name, b.asn, b.routerId, b.networks⟩
  neighbors : p.neighbors = ds.flatMap fun d => d.bgp.toList.flatMap fun b =>
    b.neighbors.map fun n => {
      node := d.name
      ip := n.ip.text
      remoteAs := some n.remoteAs
      description := some ("To " ++ n.name)
      routeMapIn := some n.routeMapIn
      routeMapOut := some n.routeMapOut
      sendCommunity := true }

/-- The neighbors of each router have different addresses on the links to it. -/
def Topology.AddressesDistinct (t : Topology) : Prop :=
  ∀ a b c i j, t.interface? b a = some i → t.interface? c a = some j →
    i.address.ip = j.address.ip → b = c

namespace PolicyModel

variable {t : Topology} {m : PolicyModel} {a : RouterId} {d : DeviceConfig}

theorem names_devices (m : PolicyModel) (t : Topology) :
    (m.devices t).map (·.name) = t.routersByName.map t.name := by
  rw [devices, List.map_filterMap, ← List.filterMap_eq_map]
  refine List.filterMap_congr fun a ha => ?_
  have hlt : a < t.routers.length := List.mem_range.mp (mem_sortBy.mp ha)
  have hr : t.router? a = some t.routers[a] := List.getElem?_eq_getElem hlt
  simp [device?, hr, Topology.name, deviceOf]

theorem names_devices_nodup (m : PolicyModel) (t : Topology) : ((m.devices t).map (·.name)).Nodup := by
  rw [names_devices]
  have hlt : ∀ a ∈ t.routersByName, a < t.size := fun a ha => List.mem_range.mp (mem_sortBy.mp ha)
  refine List.Nodup.map_on (fun a ha b hb => ?_) (sortBy_nodup List.nodup_range)
  exact Topology.name_injective (hlt a ha) (hlt b hb)

theorem pairwise_sessions (haddresses : t.AddressesDistinct) (a : RouterId) :
    ((bgpSessions t a).map (·.2)).Pairwise fun n n' => n.ip ≠ n'.ip := by
  have hpairwise : (t.neighbors a).Pairwise (· ≠ ·) := t.neighbors_nodup a
  refine List.pairwise_map.mpr (hpairwise.filterMap _ ?_)
  rintro b c hne x hx y hy heq
  obtain ⟨n, hn, rfl⟩ := Option.map_eq_some_iff.mp hx
  obtain ⟨k, hk, rfl⟩ := Option.map_eq_some_iff.mp hy
  obtain ⟨i, hi, hip⟩ := (sessionOf_bgpNeighbor? hn).ip
  obtain ⟨j, hj, hjp⟩ := (sessionOf_bgpNeighbor? hk).ip
  exact hne (haddresses a b c i j hi hj (hip.symm.trans (heq.trans hjp)))

theorem pairwise_neighbors (haddresses : t.AddressesDistinct) (hd : d ∈ m.devices t) :
    ∀ b ∈ d.bgp, b.neighbors.Pairwise fun n n' => n.ip ≠ n'.ip := by
  obtain ⟨a, router, hr, rfl⟩ := mem_devices.mp hd
  intro b hb
  obtain ⟨asn, -, rfl⟩ := Option.map_eq_some_iff.mp hb
  exact pairwise_sessions haddresses a

theorem exists_session_of_routeMap (hd : d ∈ m.devices t) {k : RouteMapConfig} (hk : k ∈ d.routeMaps) :
    ∃ b ∈ d.bgp, ∃ n ∈ b.neighbors, ∃ dir, k.name = routeMapName d.name n.name dir ∧
      k.name = match dir with
        | .incoming => n.routeMapIn
        | .outgoing => n.routeMapOut := by
  obtain ⟨a, router, hr, rfl⟩ := mem_devices.mp hd
  obtain ⟨hasn, x, hx, dir, rfl⟩ := mem_routeMaps_deviceOf.mp hk
  obtain ⟨asn, hasn⟩ := Option.isSome_iff_exists.mp hasn
  have hsession := sessionOf_of_mem hx
  have hbgp : (m.deviceOf t a router).bgp = some (m.bgpConfig t a router asn) :=
    congrArg (Option.map (m.bgpConfig t a router)) hasn
  refine ⟨_, hbgp, x.2, List.mem_map_of_mem hx, dir, ?_, ?_⟩
  · rw [m.name_deviceOf hr, hsession.name]
    rfl
  · cases dir
    exacts [hsession.routeMapIn.symm, hsession.routeMapOut.symm]

end PolicyModel

theorem forall₂_flatMap {α β γ : Type} {R : β → γ → Prop} {f : α → List β} {g : α → List γ}
    {as : List α} (h : ∀ a ∈ as, List.Forall₂ R (f a) (g a)) :
    List.Forall₂ R (as.flatMap f) (as.flatMap g) := by
  induction as with
  | nil => exact .nil
  | cons a as ih => exact List.rel_append (h a (by simp)) (ih fun a' ha' => h a' (by simp [ha']))

namespace Synthesizer

variable {s : Synthesizer} {store : Store} {model : PolicyModel} {conflicts : List Conflict}

theorem recovers_parsed {t : Topology} {d : DeviceConfig} (hd : d ∈ model.devices t)
    {m : RouteMapConfig} (hm : m ∈ d.routeMaps) :
    List.Forall₂ (fun k (x : DeviceConfig × RouteMapConfig × ClauseConfig) =>
      k.Recovers x.1 x.2.1 x.2.2) (m.parsed d.name) (m.clauses.map fun c => (d, m, c)) := by
  obtain ⟨b, hb, n, hn, dir, hname, huse⟩ := PolicyModel.exists_session_of_routeMap hd hm
  rw [RouteMapConfig.parsed_eq hname]
  refine List.forall₂_map_left_iff.mpr (List.forall₂_map_right_iff.mpr ?_)
  exact List.forall₂_same.mpr fun c _ => ⟨rfl, hname, ⟨b, hb, n, hn, rfl, huse⟩, rfl, rfl, rfl, rfl⟩

/-- The configuration text and its reader agree. -/
theorem read_render (hrange : s.topology.InRange) (hlegible : s.topology.Legible)
    (haddresses : s.topology.AddressesDistinct)
    (h : s.synthesizePartial store = .ok (model, conflicts)) :
    ∃ p, ParsedConfig.read (model.render s.topology) = .ok p ∧
      p.Recovers (model.devices s.topology) := by
  have hread := ParsedConfig.read_textOfAll fun d hd => legible_device h hrange hlegible hd
  refine ⟨_, hread, rfl, ?_, rfl, rfl, ?_⟩
  · exact forall₂_flatMap fun d hd => forall₂_flatMap fun m hm => recovers_parsed hd hm
  · exact ParsedConfig.neighbors_ofDevices (model.names_devices_nodup s.topology)
      fun d hd => PolicyModel.pairwise_neighbors haddresses hd

end Synthesizer

namespace Network.Diamond

theorem topology_inRange : topology.InRange := ⟨by decide +kernel, by decide +kernel⟩

theorem topology_legible : topology.Legible := by
  constructor <;> decide +kernel

theorem topology_addressesDistinct : topology.AddressesDistinct := by
  have hall : ∀ a < 4, ∀ b < 4, ∀ c < 4, (topology.interface? b a).isSome →
      (topology.interface? b a).map (·.address.ip) = (topology.interface? c a).map (·.address.ip) →
        b = c := by decide +kernel
  have hlt : ∀ {a b : RouterId} {i : Interface}, topology.interface? b a = some i → b < 4 ∧ a < 4 := by
    intro a b i hi
    obtain ⟨l, hl, -⟩ := Option.bind_eq_some_iff.mp hi
    have hadj : topology.adjacent b a = true := by rw [Topology.adjacent, hl]; rfl
    have hsize : topology.size = 4 := by decide +kernel
    exact hsize ▸ Topology.lt_size_of_adjacent hadj
  intro a b c i j hi hj hip
  refine hall a (hlt hi).2 b (hlt hi).1 c (hlt hj).1 (by simp [hi]) ?_
  rw [hi, hj]
  exact congrArg some hip

/-- The text of the diamond is read back, and names its routers. -/
theorem read_render_diamond : ∃ model p, run.synthesizePartial (storeOf balanced) = .ok (model, []) ∧
    ParsedConfig.read (model.render topology) = .ok p ∧ p.Recovers (model.devices topology) ∧
      p.devices = ["A", "B", "D", "S"] := by
  obtain ⟨model, h⟩ := exists_ok_of_toBool (x := run.synthesize (storeOf balanced)) (by cbv)
  have hpartial := Synthesizer.synthesizePartial_of_synthesize h
  obtain ⟨p, hread, hrecovers⟩ := Synthesizer.read_render (s := run) topology_inRange
    topology_legible topology_addressesDistinct hpartial
  refine ⟨model, p, hpartial, hread, hrecovers, ?_⟩
  rw [hrecovers.devices, PolicyModel.names_devices]
  decide +kernel

end Network.Diamond

end PathPolicy
