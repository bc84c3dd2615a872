import Simorgh.Sub.Devices

/-!
# The subscription server

Four routes serve an account's configuration: the links (or a page with them), a
JSON document, a Clash document and the config files.  Three of their handlers ask
the device gate first.

* `admitDevice` — the gate.
* `configFile` — the config file a key names.
* `handle` — what a request is answered with.
* `refused_discloses_iff` — a refused device is given configuration exactly if it
  asks for a config file that is there.
* `refused_device_downloads` — and it can.
-/

namespace Simorgh.Sub

open Simorgh.Lib Simorgh.Lib.Json Simorgh.Panel

/-! ## Requests and answers -/

/-- A request.  `host` is the address it was resolved to. -/
structure Request where
  method : String := "GET"
  path : List String
  header : String → String := fun _ => ""
  query : String → String := fun _ => ""
  host : String := ""
  clientIP : String := ""
  now : Int := 0

/-- One downloadable client config. -/
structure SubConfigFile where
  key : String
  contentType : String
  content : String
  deriving DecidableEq

/-- What a body is made of. -/
inductive Body where
  | text (s : String)
  | links (links : List String) (encoded : Bool)
  | page (links : List String) (configs : List SubConfigFile)
  | json (doc : String)
  | clash (doc : String)
  | file (config : SubConfigFile)
  deriving DecidableEq

/-- A response of the server. -/
structure Response where
  status : Nat
  body : Body
  deriving DecidableEq

/-- The body carries configuration of the account. -/
def Body.discloses : Body → Bool
  | .text _ => false
  | _ => true

/-- The settings of the server. -/
structure SubSettings where
  subPath : List String
  jsonPath : List String := []
  clashPath : List String := []
  jsonEnabled : Bool := false
  clashEnabled : Bool := false
  encrypt : Bool := false

/-- A peer's two recipes. -/
structure GreConfig where
  mikrotik : String
  linux : String

/-- What renders an account's configuration.  `none` is an error. -/
structure Renderers where
  getSubs : String → String → Option (List String)
  getJson : String → String → Option String
  getClash : String → String → Option String
  generateClientConfig : Inbound → String → String → Option String
  wgcConfigs : Inbound → String → String → Option (List String)
  awgConfigs : Inbound → String → String → Option (List String)
  greConfigs : Inbound → String → String → Option (List GreConfig)

/-! ## Config files -/

section

variable (r : Renderers)

/-- `RenderClientConfigs` of WireGuard and AmneziaWG, one file a config. -/
def wgFiles (slug : String) (i : Inbound) (configs : List String) : List SubConfigFile :=
  configs.zipIdx.map fun c =>
    ⟨slug ++ "-" ++ toString i.id ++ "-" ++ toString c.2, "application/x-wireguard-profile", c.1⟩

/-- One file for each platform of a peer that has a recipe. -/
def greFiles (i : Inbound) (configs : List GreConfig) : List SubConfigFile :=
  configs.zipIdx.flatMap fun c =>
    ([("mikrotik", c.1.mikrotik), ("linux", c.1.linux)].filter fun p => decide (trimSpace p.2 ≠ "")).map
      fun p => ⟨"gre-" ++ toString i.id ++ "-" ++ toString c.2 ++ "-" ++ p.1, "text/plain; charset=utf-8", p.2⟩

/-- The files of an inbound for an account. -/
def inboundConfigFiles (i : Inbound) (email host : String) : List SubConfigFile :=
  match i.protocol with
  | .openvpn => ["udp", "tcp"].filterMap fun proto => (r.generateClientConfig i proto host).map fun content =>
      ⟨"ovpn-" ++ toString i.id ++ "-" ++ proto, "application/x-openvpn-profile", content⟩
  | .wgc => ((r.wgcConfigs i email host).map (wgFiles "wgc" i)).getD []
  | .awg => ((r.awgConfigs i email host).map (wgFiles "awg" i)).getD []
  | .gre => ((r.greConfigs i email host).map (greFiles i)).getD []
  | _ => []

/-- The protocols the query of the subscription names. -/
def subscribable : Protocol → Bool
  | .tunnel | .http | .mixed | .wireguard => false
  | _ => true

/-- The inbounds a subscription names. -/
def getInboundsBySubId (inbounds : List Inbound) (subId : String) : List Inbound :=
  inbounds.filter fun i => subscribable i.protocol && carries subId i && i.enable

/-- `ConfigFiles`: the first file of each key. -/
def configFiles (inbounds : List Inbound) (subId host : String) : List SubConfigFile :=
  ((getInboundsBySubId inbounds subId).flatMap fun i =>
    ((getClients i).filter fun c => c.enable && decide (c.subId = subId)).flatMap fun c =>
      inboundConfigFiles r i c.email host).foldl
    (fun out f => if out.any fun g => decide (g.key = f.key) then out else out ++ [f]) []

/-- A file of a subscription. -/
def configFile (inbounds : List Inbound) (subId host key : String) : Option SubConfigFile :=
  (configFiles r inbounds subId host).find? fun f => decide (f.key = key)

end

/-! ## The gate -/

/-- What a device past the limit is told. -/
def deviceLimitMessage : String :=
  "This subscription has reached its device limit. Remove it from a device you no longer use, " ++
    "or ask your provider to raise the limit."

/-- The headers a device names itself by. -/
def deviceHeaders : List String := ["X-Device-Id", "X-Hwid", "X-Client-Id"]

/-- The first header that is not blank. -/
def firstHeader (req : Request) : List String → String
  | [] => ""
  | n :: names => if trimSpace (req.header n) ≠ "" then trimSpace (req.header n) else firstHeader req names

section

variable [Runtime] (digest : String → String)

/-- `DeviceFingerprint`; `digest` is the shortened hash in hexadecimal. -/
def deviceFingerprint (deviceHeader userAgent : String) : String :=
  let raw := trimSpace deviceHeader
  let raw := if raw = "" then trimSpace userAgent else raw
  let raw := if raw = "" then "unidentified-client" else raw
  digest (toLower raw)

/-- The call a request makes for an account. -/
def admitCall (req : Request) (email : String) : AdmitCall where
  email := email
  fingerprint := deviceFingerprint digest (firstHeader req deviceHeaders) (req.header "User-Agent")
  name := req.header "User-Agent"
  ip := req.clientIP
  now := req.now

variable (lists : String → String → Bool)

/-- What the server reads: the inbounds, the devices, and which statement of `Admit` fails. -/
structure SubState where
  inbounds : List Inbound
  devices : DeviceDb := {}
  fault : Option DevicePlace := none

/-- `admitDevice`: the devices afterwards, and whether the request may be served. -/
def admitDevice (s : SubState) (req : Request) (subId : String) : DeviceDb × Bool :=
  if subId = "" then (s.devices, true)
  else
    let account := accountForSub lists s.inbounds subId
    if account.2.2 && decide (0 < account.2.1) then
      let out := (admits account.2.1 (admitCall digest req account.1)).run s.fault ⟨s.devices, .none⟩
      (out.1.saved, out.2.2 || out.2.1)
    else (s.devices, true)

/-! ## Handlers -/

/-- `strings.Contains`. -/
def containsText (s t : String) : Bool := s.toList.tails.any fun rest => t.toList.isPrefixOf rest

/-- The request asks for the page. -/
def wantsHtml (req : Request) : Bool :=
  containsText (toLower (req.header "Accept")) "text/html" || decide (req.query "html" = "1") ||
    equalFold (req.query "view") "html"

variable (r : Renderers) (settings : SubSettings)

/-- The device limit is reached. -/
def refusal : Response := ⟨403, .text deviceLimitMessage⟩

/-- A handler behind the gate. -/
def gated (s : SubState) (req : Request) (subId : String) (serve : Response) : DeviceDb × Response :=
  let gate := admitDevice digest lists s req subId
  (gate.1, if gate.2 then serve else refusal)

/-- The links of a subscription. -/
def subs (s : SubState) (req : Request) (subId : String) : DeviceDb × Response :=
  gated digest lists s req subId <|
    match r.getSubs subId req.host with
    | none => ⟨400, .text "Error!"⟩
    | some links =>
        if wantsHtml req then ⟨200, .page links (configFiles r s.inbounds subId req.host)⟩
        else ⟨200, .links links settings.encrypt⟩

/-- The JSON configuration. -/
def subJsons (s : SubState) (req : Request) (subId : String) : DeviceDb × Response :=
  gated digest lists s req subId <|
    match r.getJson subId req.host with
    | none => ⟨400, .text "Error!"⟩
    | some doc => if doc = "" then ⟨400, .text "Error!"⟩ else ⟨200, .json doc⟩

/-- The Clash configuration. -/
def subClashs (s : SubState) (req : Request) (subId : String) : DeviceDb × Response :=
  gated digest lists s req subId <|
    match r.getClash subId req.host with
    | none => ⟨400, .text "Error!"⟩
    | some doc => if doc = "" then ⟨400, .text "Error!"⟩ else ⟨200, .clash doc⟩

/-- The one handler that does not ask the gate. -/
def subConfig (s : SubState) (req : Request) (subId key : String) : DeviceDb × Response :=
  (s.devices,
    match configFile r s.inbounds subId req.host key with
    | none => ⟨404, .text "Not found"⟩
    | some f => ⟨200, .file f⟩)

/-! ## Routes -/

/-- What is left of a path below a group. -/
def below : List String → List String → Option (List String)
  | [], path => some path
  | p :: group, q :: path => if p = q then below group path else none
  | _ :: _, [] => none

/-- The routes of the subscription server. -/
inductive Route where
  | links (subId : String)
  | config (subId key : String)
  | json (subId : String)
  | clash (subId : String)
  deriving DecidableEq

/-- The subscription of a route. -/
def Route.subId : Route → String
  | .links subId | .config subId _ | .json subId | .clash subId => subId

omit [Runtime] in
/-- The routes `initRouter` registers.  A parameter is one segment and not empty. -/
def initRouter (path : List String) : Option Route :=
  match below settings.subPath path with
  | some [subId] => if subId = "" then none else some (.links subId)
  | some [subId, "configs", key] => if subId = "" ∨ key = "" then none else some (.config subId key)
  | _ =>
      match if settings.jsonEnabled then below settings.jsonPath path else none with
      | some [subId] => if subId = "" then none else some (.json subId)
      | _ =>
          match if settings.clashEnabled then below settings.clashPath path else none with
          | some [subId] => if subId = "" then none else some (.clash subId)
          | _ => none

/-- The answer on a route. -/
def Route.serve (s : SubState) (req : Request) : Route → DeviceDb × Response
  | .links subId => subs digest lists r settings s req subId
  | .config subId key => subConfig r s req subId key
  | .json subId => subJsons digest lists r s req subId
  | .clash subId => subClashs digest lists r s req subId

/-- What a request is answered with. -/
def handle (s : SubState) (req : Request) : DeviceDb × Response :=
  match if req.method = "GET" then initRouter settings req.path else none with
  | none => (s.devices, ⟨404, .text "404 page not found"⟩)
  | some route => route.serve digest lists r settings s req

/-! ## What a refused device is given -/

theorem gated_refused {s : SubState} {req : Request} {subId : String}
    (h : (admitDevice digest lists s req subId).2 = false) (serve : Response) :
    (gated digest lists s req subId serve).2 = refusal := by
  simp [gated, h]

/-- Every handler but one turns a refused device away. -/
theorem serve_refused {s : SubState} {req : Request} {route : Route}
    (h : (admitDevice digest lists s req route.subId).2 = false)
    (hroute : ∀ subId key, route ≠ .config subId key) :
    (route.serve digest lists r settings s req).2 = refusal := by
  cases route with
  | links subId => exact gated_refused digest lists h _
  | json subId => exact gated_refused digest lists h _
  | clash subId => exact gated_refused digest lists h _
  | config subId key => exact absurd rfl (hroute subId key)

omit [Runtime] in
theorem subConfig_discloses (s : SubState) (req : Request) (subId key : String) :
    (subConfig r s req subId key).2.body.discloses = (configFile r s.inbounds subId req.host key).isSome := by
  simp only [subConfig]
  cases configFile r s.inbounds subId req.host key <;> rfl

/-- Of the requests whose device the gate refuses for the account of their subscription id,
those for a config file that is there are given configuration, and no others. -/
theorem refused_discloses_iff (s : SubState) (req : Request) (route : Route) (hget : req.method = "GET")
    (hroute : initRouter settings req.path = some route)
    (hrefused : (admitDevice digest lists s req route.subId).2 = false) :
    (handle digest lists r settings s req).2.body.discloses = false ↔
      ∀ subId key, route = .config subId key → configFile r s.inbounds subId req.host key = none := by
  rw [handle, if_pos hget, hroute]
  rcases Classical.em (∃ subId key, route = .config subId key) with ⟨subId, key, rfl⟩ | hother
  · show (subConfig r s req subId key).2.body.discloses = false ↔ _
    rw [subConfig_discloses]
    constructor
    · intro hnone subId' key' heq
      cases heq
      simpa using hnone
    · intro hnone
      rw [hnone subId key rfl]
      rfl
  · rw [serve_refused digest lists r settings hrefused fun subId key heq => hother ⟨subId, key, heq⟩]
    exact ⟨fun _ subId key heq => absurd ⟨subId, key, heq⟩ hother, fun _ => rfl⟩

end

/-! ### A second device -/

/-- Account `kim` on a WireGuard inbound, one device allowed and one recorded. -/
def kimsState : SubState where
  inbounds := [{
    id := 1
    protocol := .wgc
    settings := { clients := [(((Obj.empty.set "email" (.str "kim")).set "enable" (.bool true)).set
      "limitDevices" (.num ⟨1, true⟩)).set "subId" (.str "s1")] } }]
  devices := { rows := [{ id := 1, email := "kim", fingerprint := "phone" }], nextId := 2 }

/-- Renderers with one WireGuard config. -/
def oneConfig : Renderers where
  getSubs _ _ := some []
  getJson _ _ := none
  getClash _ _ := none
  generateClientConfig _ _ _ := none
  wgcConfigs _ _ _ := some ["PrivateKey = k"]
  awgConfigs _ _ _ := none
  greConfigs _ _ _ := none

/-- The account's second device. -/
def tabletRequest (path : List String) : Request where
  path := path
  header n := if n = "User-Agent" then "tablet" else ""

/-- The gate refuses the tablet, and the config file of the account is served to it. -/
theorem refused_device_downloads :
    (@admitDevice Runtime.ascii id (fun _ _ => true) kimsState
        (tabletRequest ["sub", "s1", "configs", "wgc-1-0"]) "s1").2 = false ∧
      (@handle Runtime.ascii id (fun _ _ => true) oneConfig ⟨["sub"], [], [], false, false, false⟩ kimsState
        (tabletRequest ["sub", "s1", "configs", "wgc-1-0"])).2 =
          ⟨200, .file ⟨"wgc-1-0", "application/x-wireguard-profile", "PrivateKey = k"⟩⟩ := by
  decide

/-- On the links it is turned away. -/
theorem refused_device_no_links :
    (@handle Runtime.ascii id (fun _ _ => true) oneConfig ⟨["sub"], [], [], false, false, false⟩ kimsState
      (tabletRequest ["sub", "s1"])).2.body.discloses = false :=
  (@refused_discloses_iff Runtime.ascii id (fun _ _ => true) oneConfig ⟨["sub"], [], [], false, false, false⟩
    kimsState (tabletRequest ["sub", "s1"]) (.links "s1") rfl (by decide) (by decide)).2
      (fun _ _ h => by cases h)

end Simorgh.Sub
