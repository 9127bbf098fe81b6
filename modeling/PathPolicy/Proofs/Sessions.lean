import PathPolicy.Proofs.Reading

/-! What is read of BGP processes. The five lines about a session fill in one entry for its address,
which is a new one unless the device has a session with this address already. -/

namespace PathPolicy

open ConfigReader

namespace ParsedNeighbor

def isAbout (node ip : String) (p : ParsedNeighbor) : Bool := p.node = node && p.ip = ip

def blank (node ip : String) : ParsedNeighbor := ⟨node, ip, none, none, none, none, false⟩

/-- Changes the entry of a session, and opens it first if there is none. -/
def touch (node ip : String) (f : ParsedNeighbor → ParsedNeighbor) (ps : List ParsedNeighbor) :
    List ParsedNeighbor :=
  (if ps.any (isAbout node ip) then ps else blank node ip :: ps).map fun p =>
    if isAbout node ip p then f p else p

variable {node ip : String} {f g : ParsedNeighbor → ParsedNeighbor} {ps : List ParsedNeighbor}

theorem isAbout_blank (node ip : String) : isAbout node ip (blank node ip) = true := by
  simp [isAbout, blank]

theorem touch_of_fresh (h : ∀ p ∈ ps, isAbout node ip p = false) (f : ParsedNeighbor → ParsedNeighbor) :
    touch node ip f ps = f (blank node ip) :: ps := by
  have hrest : ps.map (fun p => if isAbout node ip p then f p else p) = ps := by
    conv => rhs; rw [← List.map_id ps]
    exact List.map_congr_left fun p hp => by simp [h p hp]
  rw [touch, if_neg (by simpa using h), List.map_cons, if_pos (isAbout_blank node ip), hrest]

theorem any_touch (hf : ∀ p, (f p).node = p.node ∧ (f p).ip = p.ip) (ps : List ParsedNeighbor) :
    (touch node ip f ps).any (isAbout node ip) = true := by
  obtain ⟨p, hp, habout⟩ : ∃ p ∈ (if ps.any (isAbout node ip) then ps else blank node ip :: ps),
      isAbout node ip p = true := by
    split
    · next hany => exact List.any_eq_true.mp hany
    · exact ⟨blank node ip, by simp, isAbout_blank node ip⟩
  have hkept : isAbout node ip (f p) = true := by rwa [isAbout, (hf p).1, (hf p).2]
  exact List.any_eq_true.mpr ⟨f p, List.mem_map.mpr ⟨p, hp, if_pos habout⟩, hkept⟩

theorem touch_touch (hf : ∀ p, (f p).node = p.node ∧ (f p).ip = p.ip) (ps : List ParsedNeighbor) :
    touch node ip g (touch node ip f ps) = touch node ip (fun p => g (f p)) ps := by
  rw [touch, if_pos (any_touch hf ps), touch, touch, List.map_map]
  refine List.map_congr_left fun p _ => ?_
  -- `f` leaves the address, so that `g` changes the same entries
  have hkept : isAbout node ip (f p) = isAbout node ip p := by
    rw [isAbout, (hf p).1, (hf p).2, isAbout]
  by_cases hp : isAbout node ip p = true
  · simp [hp, hkept]
  · simp [hp]

end ParsedNeighbor

namespace ConfigReader

theorem updateNeighbor_openNeighbor (s : ConfigReader) (node ip : String)
    (f : ParsedNeighbor → ParsedNeighbor) :
    (s.openNeighbor node ip).updateNeighbor node ip f =
      { s with config.neighbors := ParsedNeighbor.touch node ip f s.config.neighbors } := by
  rw [openNeighbor, ParsedConfig.neighbor?, ParsedNeighbor.touch]
  cases hfind : s.config.neighbors.find? (fun n => n.node = node && n.ip = ip) with
  | some p =>
    have hany : s.config.neighbors.any (ParsedNeighbor.isAbout node ip) = true :=
      List.any_eq_true.mpr ⟨p, List.mem_of_find?_eq_some hfind, List.find?_some hfind⟩
    rw [if_pos hany]
    rfl
  | none =>
    have hany : ¬ s.config.neighbors.any (ParsedNeighbor.isAbout node ip) = true := by
      simpa [ParsedNeighbor.isAbout] using hfind
    rw [if_neg hany]
    rfl

/-- Only the quotation marks around a description are taken off, unless its text ends with another. -/
theorem unquote_description {name : String} (h : name.toList.getLast? ≠ some '"') :
    unquote ("\"To ".toList ++ name.toList ++ ['"']) = ("To " ++ name).toList := by
  have hstart : ("\"To ".toList ++ name.toList ++ ['"']).dropWhile (· = '"') =
      "To ".toList ++ name.toList ++ ['"'] := by simp
  have hend : ("To ".toList ++ name.toList).reverse.dropWhile (· = '"') =
      ("To ".toList ++ name.toList).reverse := by
    rcases List.eq_nil_or_concat name.toList with hnil | ⟨front, c, hconcat⟩
    · rw [hnil]
      simp
    · have hc : c ≠ '"' := by simpa [hconcat] using h
      simp [hconcat, hc]
  rw [unquote, hstart, List.reverse_append]
  simpa using congrArg List.reverse hend

theorem routeMapUse?_append {name : List Char} (hne : name ≠ []) (d : Direction) :
    Statement.routeMapUse? (name ++ ' ' :: d.text.toList) = some (name, d) := by
  cases d with
  | incoming =>
    have hin : Statement.before? " in" (name ++ ' ' :: Direction.incoming.text.toList) = some name :=
      Statement.before?_append " in" name
    simp [Statement.routeMapUse?, hin, Statement.nonempty?_eq_some hne]
  | outgoing =>
    have hin : Statement.before? " in" (name ++ ' ' :: Direction.outgoing.text.toList) = none := by
      simp [Statement.before?, List.isSuffixOf?, Direction.text, List.isPrefixOf?]
    have hout : Statement.before? " out" (name ++ ' ' :: Direction.outgoing.text.toList) = some name :=
      Statement.before?_append " out" name
    simp [Statement.routeMapUse?, hin, hout, Statement.nonempty?_eq_some hne]

end ConfigReader

namespace BgpNeighborConfig

def parsed (router : String) (n : BgpNeighborConfig) : ParsedNeighbor where
  node := router
  ip := n.ip.text
  remoteAs := some n.remoteAs
  description := some ("To " ++ n.name)
  routeMapIn := some n.routeMapIn
  routeMapOut := some n.routeMapOut
  sendCommunity := true

/-- All lines of a session at once. -/
def fill (n : BgpNeighborConfig) (p : ParsedNeighbor) : ParsedNeighbor :=
  { n.parsed p.node with ip := p.ip }

/-- Adds what is read of a session. -/
def record (router : String) (ps : List ParsedNeighbor) (n : BgpNeighborConfig) : List ParsedNeighbor :=
  ParsedNeighbor.touch router n.ip.text n.fill ps

structure Legible (router : String) (n : BgpNeighborConfig) : Prop where
  remoteAs_lt : n.remoteAs < Text.limit32
  newline_notMem : '\n' ∉ n.name.toList
  getLast?_ne : n.name.toList.getLast? ≠ some '"'
  routeMapIn_eq : n.routeMapIn = routeMapName router n.name .incoming
  routeMapOut_eq : n.routeMapOut = routeMapName router n.name .outgoing

variable {router : String} {n : BgpNeighborConfig} {cfg : ParsedConfig} {b : ParsedBgp}

/-- Inside of a BGP process. -/
def inside (router : String) (cfg : ParsedConfig) (b : ParsedBgp) (ps : List ParsedNeighbor) :
    ConfigReader :=
  ⟨{ cfg with bgp := b :: cfg.bgp, neighbors := ps }, some router, false, true⟩

/-- The lines change the entry of the session in this way. -/
def Changes (router : String) (n : BgpNeighborConfig) (lines : List String)
    (f : ParsedNeighbor → ParsedNeighbor) : Prop :=
  ∀ cfg b ps, Reads (inside router cfg b ps) lines
    (inside router cfg b (ParsedNeighbor.touch router n.ip.text f ps))

theorem changes_of_written {line : String} {k : NeighborKeyword} {argument : List Char}
    {f : ParsedNeighbor → ParsedNeighbor}
    (h : Written line true (some (.neighbor n.ip.text.toList k argument)))
    (hchange : ∀ i, neighborChange i k argument = .ok f) : Changes router n [line] f := by
  intro cfg b ps
  refine reads_of_written h rfl fun i => ?_
  simp only [accept, String.ofList_toList, hchange]
  exact congrArg Except.ok (updateNeighbor_openNeighbor _ router n.ip.text f)

theorem Changes.append {as bs : List String} {f g : ParsedNeighbor → ParsedNeighbor}
    (h : Changes router n as f) (h' : Changes router n bs g)
    (hf : ∀ p, (f p).node = p.node ∧ (f p).ip = p.ip) :
    Changes router n (as ++ bs) fun p => g (f p) := by
  intro cfg b ps
  have hread := (h cfg b ps).append (h' cfg b _)
  rwa [ParsedNeighbor.touch_touch hf] at hread

theorem changes_remoteAs (router : String) (h : n.remoteAs < Text.limit32) :
    Changes router n [s!" neighbor {n.ip.text} remote-as {n.remoteAs}"]
      fun p => { p with remoteAs := some n.remoteAs } := by
  refine changes_of_written (written_remoteAs n.ip n.remoteAs) fun i => ?_
  rw [neighborChange, number, Text.unsigned?_toDigits h]
  rfl

theorem changes_description (router : String) (hnewline : '\n' ∉ n.name.toList)
    (hlast : n.name.toList.getLast? ≠ some '"') :
    Changes router n [s!" neighbor {n.ip.text} description \"To {n.name}\""]
      fun p => { p with description := some ("To " ++ n.name) } := by
  refine changes_of_written (written_description n.ip hnewline) fun i => ?_
  rw [neighborChange, unquote_description hlast, String.ofList_toList]

theorem changes_routeMap {name neighbor : String} {d : Direction}
    (hname : name = routeMapName router neighbor d) (hrouter : '\n' ∉ router.toList)
    (hneighbor : '\n' ∉ neighbor.toList) :
    Changes router n [s!" neighbor {n.ip.text} route-map {name} {d.text}"]
      fun p => match d with
        | .incoming => { p with routeMapIn := some name }
        | .outgoing => { p with routeMapOut := some name } := by
  have hlist : name.toList = "RMap_".toList ++ routeMapBody router neighbor d := by
    rw [hname, toList_routeMapName]
  have hbody := newline_notMem_routeMapBody hrouter hneighbor d
  refine changes_of_written (written_routeMap n.ip hlist hbody d) fun i => ?_
  have hne : name.toList ≠ [] := by simp [hlist]
  refine congrArg Except.ok (funext fun p => ?_)
  rw [setRouteMap, routeMapUse?_append hne]
  cases d <;> simp

theorem lines_eq (n : BgpNeighborConfig) : n.lines =
    [s!" neighbor {n.ip.text} remote-as {n.remoteAs}"] ++
      ([s!" neighbor {n.ip.text} description \"To {n.name}\""] ++
        ([s!" neighbor {n.ip.text} route-map {n.routeMapIn} {Direction.incoming.text}"] ++
          ([s!" neighbor {n.ip.text} route-map {n.routeMapOut} {Direction.outgoing.text}"] ++
            [s!" neighbor {n.ip.text} send-community"]))) := by
  have hin : " in" = " " ++ "in" := rfl
  have hout : " out" = " " ++ "out" := rfl
  simp only [lines, Direction.text, List.cons_append, List.nil_append, hin, hout, toString,
    String.append_assoc]

theorem Legible.changes_lines (h : n.Legible router) (hrouter : '\n' ∉ router.toList) :
    Changes router n n.lines n.fill := by
  have hsend : Changes router n [s!" neighbor {n.ip.text} send-community"]
      fun p => { p with sendCommunity := true } :=
    changes_of_written (written_sendCommunity n.ip) fun _ => rfl
  have hout := changes_routeMap (n := n) h.routeMapOut_eq hrouter h.newline_notMem
  have hin := changes_routeMap (n := n) h.routeMapIn_eq hrouter h.newline_notMem
  have hdescription := changes_description router h.newline_notMem h.getLast?_ne
  have hremote := changes_remoteAs router h.remoteAs_lt
  rw [lines_eq]
  exact hremote.append (hdescription.append (hin.append (hout.append hsend fun _ => ⟨rfl, rfl⟩)
    fun _ => ⟨rfl, rfl⟩) fun _ => ⟨rfl, rfl⟩) fun _ => ⟨rfl, rfl⟩

end BgpNeighborConfig

namespace BgpConfig

def parsed (router : String) (b : BgpConfig) : ParsedBgp := ⟨router, b.asn, b.routerId, b.networks⟩

structure Legible (router : String) (b : BgpConfig) : Prop where
  asn_lt : b.asn < Text.limit32
  neighbors : ∀ n ∈ b.neighbors, n.Legible router

variable {router : String} {b : BgpConfig} {cfg : ParsedConfig} {k : ParsedBgp}

open BgpNeighborConfig (inside record)

theorem reads_opening (router : String) (cfg : ParsedConfig) (hasn : b.asn < Text.limit32) :
    Reads (idle router cfg) [s!"router bgp {b.asn}"]
      (inside router cfg ⟨router, b.asn, none, []⟩ cfg.neighbors) := by
  refine reads_of_written (written_opening b.asn) rfl fun n => ?_
  have hnumber : number Text.limit32 n (Nat.toDigits 10 b.asn) = .ok b.asn := by
    rw [number, Text.unsigned?_toDigits hasn]
  simp only [accept, hnumber]
  rfl

theorem reads_routerId (ps : List ParsedNeighbor) (id : Option Ipv4) :
    Reads (inside router cfg ⟨router, b.asn, none, []⟩ ps) (id.toList.map routerIdLine)
      (inside router cfg ⟨router, b.asn, id, []⟩ ps) := by
  cases id with
  | none => exact Reads.nil _
  | some id =>
    refine reads_of_written (written_routerIdLine id) rfl fun n => ?_
    have hip : ip n id.text.toList = .ok id := by rw [ip, Ipv4.ofChars?_text]
    simp only [accept, entered, inside, hip]
    rfl

/-- Inside of a BGP process the reader takes the address from its line. -/
theorem reads_networkLine {s : ConfigReader} {node : String} (hnode : s.device = some node)
    (hbgp : s.inBgp = true) (a : Address) : Reads s [networkLine a]
      (s.withBgp fun b => { b with networks := b.networks ++ [a] }) := by
  refine reads_of_written (written_networkLine a) hnode fun n => ?_
  have hentered : s.entered true = s := rfl
  have hip : ∀ i : Ipv4, ip n i.text.toList = .ok i := fun i => by rw [ip, Ipv4.ofChars?_text]
  have haddress := a.clamped_weight_mask
  rw [hentered]
  simp only [accept, hbgp, hip, Bool.not_true, Bool.false_eq_true, if_false]
  change Except.ok _ = _
  rw [haddress]

theorem reads_networks (k : ParsedBgp) (ps : List ParsedNeighbor) (networks : List Address) :
    Reads (inside router cfg k ps) (networks.map networkLine)
      (inside router cfg { k with networks := k.networks ++ networks } ps) := by
  induction networks generalizing k with
  | nil => simpa using Reads.nil _
  | cons a networks ih =>
    have hline : Reads (inside router cfg k ps) [networkLine a]
        (inside router cfg { k with networks := k.networks ++ [a] } ps) :=
      reads_networkLine rfl rfl a
    have hrest := ih { k with networks := k.networks ++ [a] }
    simpa using hline.append hrest

theorem reads_multipath (k : ParsedBgp) (ps : List ParsedNeighbor) (maxPaths : Option Nat) :
    Reads (inside router cfg k ps) (maxPaths.toList.flatMap multipathLines)
      (inside router cfg k ps) := by
  cases maxPaths with
  | none => exact Reads.nil _
  | some n =>
    have hmax := reads_of_silent (s := inside router cfg k ps) (written_maxPathsLine n) rfl
    have hrelax := reads_of_silent (s := inside router cfg k ps) written_multipathRelax rfl
    exact hmax.append hrelax

theorem reads_lines (h : b.Legible router) (hrouter : '\n' ∉ router.toList) :
    Reads (idle router cfg) b.lines (idle router { cfg with
      bgp := b.parsed router :: cfg.bgp
      neighbors := b.neighbors.foldl (record router) cfg.neighbors }) := by
  let k : ParsedBgp := ⟨router, b.asn, b.routerId, []⟩
  let ps := b.neighbors.foldl (record router) cfg.neighbors
  have hopening := reads_opening router cfg h.asn_lt
  have hid : Reads (inside router cfg ⟨router, b.asn, none, []⟩ cfg.neighbors)
      (b.routerId.toList.map routerIdLine) (inside router cfg k cfg.neighbors) :=
    reads_routerId cfg.neighbors b.routerId
  have hneighbors : Reads (inside router cfg k cfg.neighbors) (b.neighbors.flatMap (·.lines))
      (inside router cfg k ps) :=
    Reads.foldl (fun n hn qs => (h.neighbors n hn).changes_lines hrouter cfg k qs) cfg.neighbors
  have hnetworks : Reads (inside router cfg k ps) (b.networks.map networkLine)
      (inside router cfg (b.parsed router) ps) := reads_networks k ps b.networks
  have hmulti : Reads (inside router cfg (b.parsed router) ps)
      (b.maxPaths.toList.flatMap multipathLines) (inside router cfg (b.parsed router) ps) :=
    reads_multipath (b.parsed router) ps b.maxPaths
  have hstanza := reads_stanza (by simp)
    ((((hopening.append hid).append hneighbors).append hnetworks).append hmulti) rfl
  exact hstanza

end BgpConfig

end PathPolicy
