import PathPolicy.Proofs.Sessions
import PathPolicy.Proofs.Stanzas

/-! The text of all devices is read back without error, as the sum of what each device adds. -/

namespace PathPolicy

open ConfigReader

namespace InterfaceConfig

structure Legible (i : InterfaceConfig) : Prop where
  name_newline : '\n' ∉ i.name.toList
  description_newline : ∀ text ∈ i.description, '\n' ∉ text.toList

theorem Legible.written_lines {i : InterfaceConfig} (h : i.Legible) {l : String} (hl : l ∈ i.lines) :
    ∃ indented, Written l indented none := by
  have hlines : i.lines = stanza ([s!"interface {i.name}",
      s!" ip address {i.address.ip.text} {i.address.mask.text}"] ++
        i.description.toList.map (fun text => s!" description \"{text}\"") ++
        i.ospfCost.toList.map fun cost => s!" ip ospf cost {cost}") := rfl
  simp only [hlines, stanza, List.cons_append, List.nil_append, List.mem_cons, List.mem_append,
    List.mem_map, Option.mem_toList, List.not_mem_nil, or_false] at hl
  rcases hl with rfl | rfl | (⟨text, htext, rfl⟩ | ⟨cost, -, rfl⟩) | rfl
  · exact ⟨_, written_opening h.name_newline⟩
  · exact ⟨_, written_address _ _⟩
  · exact ⟨_, written_description (h.description_newline text htext)⟩
  · exact ⟨_, written_ospfCost cost⟩
  · exact ⟨_, written_stanzaEnd⟩

end InterfaceConfig

namespace OspfConfig

theorem written_lines (o : OspfConfig) {l : String} (hl : l ∈ o.lines) :
    ∃ indented, Written l indented none := by
  have hlines : o.lines = stanza (s!"router ospf {o.processId}" :: o.networks.map networkLine ++
      o.maxPaths.toList.map maxPathsLine) := rfl
  simp only [hlines, stanza, List.cons_append, List.mem_cons, List.mem_append, List.mem_map,
    List.not_mem_nil, or_false] at hl
  rcases hl with rfl | (⟨a, -, rfl⟩ | ⟨n, -, rfl⟩) | rfl
  · exact ⟨_, written_opening o.processId⟩
  · exact ⟨_, written_networkLine a⟩
  · exact ⟨_, written_maxPathsLine n⟩
  · exact ⟨_, written_stanzaEnd⟩

end OspfConfig

namespace DeviceConfig

/-- Nothing in the configuration of a device takes up more than its line, and all names of route maps
and sessions are those of the device. -/
structure Legible (d : DeviceConfig) : Prop where
  name_ne : d.name ≠ ""
  name_newline : '\n' ∉ d.name.toList
  interfaces : ∀ i ∈ d.interfaces, i.Legible
  prefixLists : ∀ l ∈ d.prefixLists, Text.IsWord l.name.toList
  communityLists : ∀ l ∈ d.communityLists, '\n' ∉ l.name.toList
  routeMaps : ∀ m ∈ d.routeMaps, m.Legible d.name
  bgp : ∀ b ∈ d.bgp, b.Legible d.name

/-- What is read of a device after `cfg`. -/
def addTo (d : DeviceConfig) (cfg : ParsedConfig) : ParsedConfig where
  devices := d.name :: cfg.devices
  clauses := (d.routeMaps.flatMap (·.parsed d.name)).reverse ++ cfg.clauses
  neighbors := (d.bgp.toList.flatMap (·.neighbors)).foldl (BgpNeighborConfig.record d.name) cfg.neighbors
  bgp := d.bgp.toList.map (·.parsed d.name) ++ cfg.bgp
  prefixLists := (d.prefixLists.flatMap (·.parsed d.name)).reverse ++ cfg.prefixLists

variable {d : DeviceConfig} {s : ConfigReader}

theorem reads_headerLine (h : d.Legible) (s : ConfigReader) :
    Reads s [headerLine d.name]
      (idle d.name { s.config with devices := d.name :: s.config.devices }) := by
  have hwritten := written_headerLine h.name_ne h.name_newline
  refine ⟨by simpa using hwritten.newline_notMem, fun n => ?_⟩
  have hline : s.readLine n (Text.withoutReturn (headerLine d.name).toList) =
      .ok (idle d.name { s.config with devices := d.name :: s.config.devices }) := by
    rw [readLine, hwritten.ofLine?_eq]
    simp [enterDevice, idle]
  simp [readLines, hline]

theorem reads_bgp (h : d.Legible) (cfg : ParsedConfig) :
    Reads (idle d.name cfg) (d.bgp.toList.flatMap (·.lines)) (idle d.name { cfg with
      neighbors :=
        (d.bgp.toList.flatMap (·.neighbors)).foldl (BgpNeighborConfig.record d.name) cfg.neighbors
      bgp := d.bgp.toList.map (·.parsed d.name) ++ cfg.bgp }) := by
  cases hbgp : d.bgp with
  | none => exact Reads.nil _
  | some b =>
    have hread : Reads (idle d.name cfg) b.lines _ :=
      BgpConfig.reads_lines (h.bgp b hbgp) h.name_newline
    simpa using hread

theorem reads_lines (h : d.Legible) (s : ConfigReader) :
    Reads s d.lines (idle d.name (d.addTo s.config)) := by
  let cfg : ParsedConfig := { s.config with devices := d.name :: s.config.devices }
  have hinterfaces : Reads (idle d.name cfg) (d.interfaces.flatMap (·.lines)) (idle d.name cfg) :=
    reads_silent_all fun l hl => by
      obtain ⟨i, hi, hl⟩ := List.mem_flatMap.mp hl
      exact (h.interfaces i hi).written_lines hl
  have hospf : Reads (idle d.name cfg) d.ospf.lines (idle d.name cfg) :=
    reads_silent_all fun l hl => d.ospf.written_lines hl
  have hprefix := PrefixList.reads_stanzaOf d.name cfg h.prefixLists
  have hcommunity : ∀ cfg, Reads (idle d.name cfg) (stanza (d.communityLists.map (·.line)))
      (idle d.name cfg) := fun cfg => reads_silent_stanza fun l hl => by
    obtain ⟨k, hk, rfl⟩ := List.mem_map.mp hl
    exact ⟨_, CommunityList.written_line (h.communityLists k hk)⟩
  have hmaps := fun cfg => RouteMapConfig.reads_flatMap_lines cfg h.routeMaps h.name_newline
  have hstatic : ∀ cfg, Reads (idle d.name cfg) (stanza (d.staticRoutes.map (·.line)))
      (idle d.name cfg) := fun cfg => reads_silent_stanza fun l hl => by
    obtain ⟨k, -, rfl⟩ := List.mem_map.mp hl
    exact ⟨_, k.written_line⟩
  have hfront := (((reads_headerLine h s).append hinterfaces).append hospf).append hprefix
  have hpolicy := ((hfront.append (hcommunity _)).append (hmaps _)).append (reads_bgp h _)
  exact hpolicy.append (hstatic _)

theorem toList_text (d : DeviceConfig) : d.text.toList = d.lines.flatMap fun l => l.toList ++ ['\n'] := by
  rw [text, String.toList_join, List.flatMap_map]
  simp

/-- The lines of a text of several devices. -/
def linesOfAll : List DeviceConfig → List String
  | [] => []
  | [d] => d.lines
  | d :: e :: ds => d.lines ++ "" :: linesOfAll (e :: ds)

theorem toList_textOfAll (ds : List DeviceConfig) :
    (textOfAll ds).toList = (linesOfAll ds).flatMap fun l => l.toList ++ ['\n'] := by
  rw [textOfAll]
  -- between two devices there is an empty line, and none after the last
  induction ds using linesOfAll.induct with
  | case1 => rfl
  | case2 d => simp [linesOfAll, toList_text]
  | case3 d e ds ih =>
    rw [List.map_cons, List.map_cons, String.intercalate_cons_cons, ← List.map_cons, String.toList_append,
      ih, linesOfAll]
    simp [toList_text]

theorem reads_emptyLine (node : String) (cfg : ParsedConfig) :
    Reads (idle node cfg) [""] (idle node cfg) := by
  refine ⟨by simp, fun n => ?_⟩
  have hline : (idle node cfg).readLine n (Text.withoutReturn "".toList) = .ok (idle node cfg) := rfl
  simp only [List.map_cons, List.map_nil, readLines, hline]

/-- Where the reader stands after some devices. -/
def readAfter (s : ConfigReader) (ds : List DeviceConfig) : ConfigReader :=
  ds.foldl (fun s d => idle d.name (d.addTo s.config)) s

theorem config_readAfter (s : ConfigReader) (ds : List DeviceConfig) :
    (readAfter s ds).config = ds.foldl (fun cfg d => d.addTo cfg) s.config := by
  induction ds generalizing s with
  | nil => rfl
  | cons d ds ih => exact ih _

theorem reads_linesOfAll {ds : List DeviceConfig} (h : ∀ d ∈ ds, d.Legible) (s : ConfigReader) :
    Reads s (linesOfAll ds) (readAfter s ds) := by
  induction ds using linesOfAll.induct generalizing s with
  | case1 => exact Reads.nil s
  | case2 d => exact reads_lines (h d (by simp)) s
  | case3 d e ds ih =>
    have hfirst := (reads_lines (h d (by simp)) s).append (reads_emptyLine _ _)
    have hrest := ih (fun d' hd' => h d' (by simp [hd'])) (idle d.name (d.addTo s.config))
    have hwhole := hfirst.append hrest
    rw [List.append_assoc] at hwhole
    exact hwhole

end DeviceConfig

namespace Text

theorem lines_flatMap {ls : List String} (h : ∀ l ∈ ls, '\n' ∉ l.toList) :
    lines (ls.flatMap fun l => l.toList ++ ['\n']) = ls.map fun l => withoutReturn l.toList := by
  have hfields : fields '\n' (ls.flatMap fun l => l.toList ++ ['\n']) =
      ls.map String.toList ++ [[]] := by
    induction ls with
    | nil => rfl
    | cons l ls ih =>
      rw [List.flatMap_cons, List.append_assoc, List.singleton_append,
        fields_append (h l (by simp)), ih fun l' hl' => h l' (by simp [hl'])]
      rfl
  rw [lines, hfields]
  clear h hfields
  induction ls with
  | nil => rfl
  | cons l ls ih =>
    rw [List.map_cons, List.cons_append, linesOf, ih, List.map_cons]
    simp

end Text

namespace ParsedConfig

/-- What is read of all devices. -/
def ofDevices (ds : List DeviceConfig) : ParsedConfig where
  devices := ds.map (·.name)
  clauses := ds.flatMap fun d => d.routeMaps.flatMap (·.parsed d.name)
  neighbors := (ds.foldl (fun ps d =>
    (d.bgp.toList.flatMap (·.neighbors)).foldl (BgpNeighborConfig.record d.name) ps) []).reverse
  bgp := ds.flatMap fun d => d.bgp.toList.map (·.parsed d.name)
  prefixLists := ds.flatMap fun d => d.prefixLists.flatMap (·.parsed d.name)

theorem foldl_addTo (ds : List DeviceConfig) (cfg : ParsedConfig) :
    ds.foldl (fun cfg d => d.addTo cfg) cfg = {
      devices := (ds.map (·.name)).reverse ++ cfg.devices
      clauses := (ds.flatMap fun d => d.routeMaps.flatMap (·.parsed d.name)).reverse ++ cfg.clauses
      neighbors := ds.foldl (fun ps d =>
        (d.bgp.toList.flatMap (·.neighbors)).foldl (BgpNeighborConfig.record d.name) ps) cfg.neighbors
      bgp := (ds.flatMap fun d => d.bgp.toList.map (·.parsed d.name)).reverse ++ cfg.bgp
      prefixLists :=
        (ds.flatMap fun d => d.prefixLists.flatMap (·.parsed d.name)).reverse ++ cfg.prefixLists } := by
  induction ds generalizing cfg with
  | nil => rfl
  | cons d ds ih =>
    have hbgp : (d.bgp.toList.map (·.parsed d.name)).reverse = d.bgp.toList.map (·.parsed d.name) := by
      cases d.bgp <;> rfl
    rw [List.foldl_cons, ih]
    simp [DeviceConfig.addTo, hbgp]

/-- The text of devices is read without error, and of each device nothing is lost and nothing is
added. -/
theorem read_textOfAll {ds : List DeviceConfig} (h : ∀ d ∈ ds, d.Legible) :
    read (DeviceConfig.textOfAll ds) = .ok (ofDevices ds) := by
  have hreads := DeviceConfig.reads_linesOfAll h start
  have hresult : (DeviceConfig.readAfter start ds).result = ofDevices ds := by
    rw [ConfigReader.result, DeviceConfig.config_readAfter, foldl_addTo]
    simp [ofDevices, start, empty]
  rw [read, DeviceConfig.toList_textOfAll, Text.lines_flatMap hreads.newline_notMem,
    hreads.readLines_eq, ← hresult]
  rfl

end ParsedConfig

end PathPolicy
