import Mathlib.Data.List.Basic
import Simorgh.Lib.Effects

/-!
# Downloads of custom geo files

The operator gives the URL of a geo file.  The panel probes it and downloads it through a
transport of its own, which looks the name up and refuses it where an answer is an internal
address; then the dialer looks the name up once more and connects.

* `dialContext`, `roundTrip`, `follow` — one connection, one request, and a chain of
  redirects.
* `probeCustomGeoURL`, `downloadToPath`, `ensureOnStartup` — what the panel does with a URL.
* `Guarded` — with this resolver no connection to an internal address is opened, whatever the
  URLs, the redirects and the network.
* `guarded_iff_steady` — that is so exactly when the resolver never answers a name with
  internal addresses right after an answer without them.
* `rebinding_not_guarded` — a name whose third answer is the loopback.
-/

namespace Simorgh.Panel.CustomGeo

open Simorgh.Lib

/-! ## Addresses -/

/-- `net.IP` of four octets or of sixteen. -/
inductive IP where
  | v4 (a b c d : UInt8)
  | v6 (octets : Vector UInt8 16)
  deriving DecidableEq

/-- `IP.To4`: also of a mapped address. -/
def IP.to4 : IP → Option (UInt8 × UInt8 × UInt8 × UInt8)
  | .v4 a b c d => some (a, b, c, d)
  | .v6 o =>
      if (o.toList.take 10).all (· == 0) && o[10] == 0xff && o[11] == 0xff then some (o[12], o[13], o[14], o[15])
      else none

/-- The sixteen octets of an address that is none of four. -/
def IP.octets : IP → Option (Vector UInt8 16)
  | .v4 .. => none
  | .v6 o => some o

/-- `net.IP.IsLoopback`. -/
def IP.isLoopback (ip : IP) : Bool :=
  match ip.to4 with
  | some (a, _) => a == 127
  | none => ip.octets.any fun o => (o.toList.take 15).all (· == 0) && o[15] == 1

/-- `net.IP.IsPrivate`. -/
def IP.isPrivate (ip : IP) : Bool :=
  match ip.to4 with
  | some (a, b, _) => a == 10 || (a == 172 && b &&& 0xf0 == 16) || (a == 192 && b == 168)
  | none => ip.octets.any fun o => o[0] &&& 0xfe == 0xfc

/-- `net.IP.IsLinkLocalUnicast`. -/
def IP.isLinkLocalUnicast (ip : IP) : Bool :=
  match ip.to4 with
  | some (a, b, _) => a == 169 && b == 254
  | none => ip.octets.any fun o => o[0] == 0xfe && o[1] &&& 0xc0 == 0x80

/-- `net.IP.IsLinkLocalMulticast`. -/
def IP.isLinkLocalMulticast (ip : IP) : Bool :=
  match ip.to4 with
  | some (a, b, c, _) => a == 224 && b == 0 && c == 0
  | none => ip.octets.any fun o => o[0] == 0xff && o[1] &&& 0x0f == 0x02

/-- `net.IP.IsUnspecified`. -/
def IP.isUnspecified (ip : IP) : Bool :=
  match ip.to4 with
  | some (a, b, c, d) => a == 0 && b == 0 && c == 0 && d == 0
  | none => ip.octets.any fun o => o.toList.all (· == 0)

/-- No request may go there. -/
def isBlockedIP (ip : IP) : Bool :=
  ip.isLoopback || ip.isPrivate || ip.isLinkLocalUnicast || ip.isLinkLocalMulticast || ip.isUnspecified

/-! ## URLs and what the world does -/

/-- The host of a URL without its port. -/
inductive Host where
  | literal (ip : IP)
  | name (s : String)
  deriving DecidableEq

/-- A parsed URL; `target` is the port, the path and the query. -/
structure URL where
  scheme : String
  user : Option String := none
  host : Option Host
  target : String := "/"
  deriving DecidableEq

/-- What the operator typed. -/
inductive RawURL where
  | empty
  | malformed
  | parsed (u : URL)

/-- The errors of the service. -/
inductive CustomGeoError where
  | urlRequired
  | invalidURL
  | urlScheme
  | urlHost
  | ssrfBlocked
  | request
  | download
  | status (sc : ℕ)
  | notFound
  deriving DecidableEq

/-- What comes back for a request: an answer, a redirect, or a connection that breaks. -/
inductive Reply where
  | final (status : ℕ)
  | redirect (u : URL)
  | broken

/-- The resolver, the network and the servers; each is asked again and again and may answer
otherwise every time. -/
structure World where
  resolve : ℕ → String → Option (List IP)
  /-- The address takes the connection. -/
  accepts : ℕ → IP → Bool
  /-- The second family is tried before the first one is through. -/
  races : ℕ → Bool
  reply : ℕ → Reply
  /-- An idle connection is used if there is one. -/
  reuses : ℕ → Bool
  /-- The proxy of the environment, by the URL. -/
  proxy : URL → Option Host := fun _ => none
  /-- The destination is inside the folder of the binaries. -/
  destOk : Bool := true
  /-- The file is missing or too small. -/
  needsRepair : ℕ → Bool := fun _ => true

/-- How often the world has been asked, and the connections that were opened. -/
structure Trace where
  lookups : ℕ := 0
  dials : ℕ := 0
  requests : ℕ := 0
  opened : List IP := []

/-- A computation with requests over the network. -/
abbrev Net := EStateM CustomGeoError Trace

section

variable (w : World)

/-! ## The transport -/

/-- `LookupIPAddr`: a literal is its own answer. -/
def lookupIPAddr : Host → Net (Option (List IP))
  | .literal ip => pure (some [ip])
  | .name s => do
      let n ← modifyGet fun t => (t.lookups, { t with lookups := t.lookups + 1 })
      return w.resolve n s

/-- A name none of whose addresses is blocked. -/
def checkSSRF (hostname : Host) : Net Unit := do
  match ← lookupIPAddr w hostname with
  | none => throw .ssrfBlocked
  | some ips => if ips.any isBlockedIP then throw .ssrfBlocked

/-- The dialer's own order: the addresses of the first one's family, then the others; or both
at the same time. -/
def dialParallel (races : Bool) (accepts : IP → Bool) (addrs : List IP) : List IP :=
  let family (ip : IP) : Bool := ip.to4.isSome
  let primaries := addrs.filter fun ip => some (family ip) == addrs.head?.map family
  let fallbacks := addrs.filter fun ip => !(some (family ip) == addrs.head?.map family)
  match primaries.find? accepts with
  | some ip => ip :: if races then (fallbacks.find? accepts).toList else []
  | none => (fallbacks.find? accepts).toList

/-- `net.Dialer.DialContext`. -/
def dialerDial (host : Host) : Net Unit := do
  match ← lookupIPAddr w host with
  | none => throw .request
  | some addrs =>
      let conns ← modifyGet fun t =>
        let conns := dialParallel (w.races t.dials) (w.accepts t.dials) addrs
        (conns, { t with dials := t.dials + 1, opened := t.opened ++ conns })
      if conns = [] then throw .request

/-- The `DialContext` of `ssrfSafeTransport`. -/
def dialContext (host : Host) : Net Unit := do
  checkSSRF w host
  dialerDial w host

/-- An idle connection, or else a new one. -/
def getConn (reuse : Bool) (idle : List Host) (host : Host) : Net Unit :=
  if reuse && idle.contains host then pure () else dialContext w host

/-- One request.  `idle` are the hosts this client has connections to. -/
def roundTrip (idle : List Host) (u : URL) : Net (Reply × List Host) :=
  match u.host with
  | none => throw .request
  | some host =>
      if u.scheme ≠ "http" ∧ u.scheme ≠ "https" then throw .request
      else do
        let dialed := (w.proxy u).getD host
        let n ← modifyGet fun t => (t.requests, { t with requests := t.requests + 1 })
        getConn w (w.reuses n) idle dialed
        return (w.reply n, dialed :: idle)

/-- `http.Client.Do`, with the requests that are left. -/
def follow : ℕ → List Host → URL → Net ℕ
  | 0, _, _ => throw .request
  | n + 1, idle, u => do
      match ← roundTrip w idle u with
      | (.final status, _) => return status
      | (.redirect u', idle') => follow n idle' u'
      | (.broken, _) => throw .request

/-- The client gives up after ten requests. -/
def clientDo (u : URL) : Net ℕ := follow w 10 [] u

/-! ## The service -/

/-- The URL, parsed and checked. -/
def sanitizeURL : RawURL → Net URL
  | .empty => throw .urlRequired
  | .malformed => throw .invalidURL
  | .parsed u =>
      if u.scheme ≠ "http" ∧ u.scheme ≠ "https" then throw .urlScheme
      else match u.host with
        | none => throw .urlHost
        | some host => do
            checkSSRF w host
            return { u with user := none }

/-- The source answers a GET. -/
def probeCustomGeoURLWithGET (raw : RawURL) : Net Unit := do
  let u ← sanitizeURL w raw
  let sc ← clientDo w u
  if sc ≠ 200 ∧ sc ≠ 206 then throw (.status sc)

/-- The source answers. -/
def probeCustomGeoURL (raw : RawURL) : Net Unit := do
  let u ← sanitizeURL w raw
  let sc ← clientDo w u
  if 200 ≤ sc ∧ sc < 300 then return ()
  else if sc = 405 ∨ sc = 501 then probeCustomGeoURLWithGET w raw
  else throw (.status sc)

/-- One download; `true` if the file has not been modified. -/
def downloadToPathOnce (raw : RawURL) (forceFull : Bool) : Net Bool :=
  if !w.destOk then throw .download
  else do
    let u ← sanitizeURL w raw
    let sc ← clientDo w u
    if sc = 304 then
      if forceFull then throw .download else return true
    else if sc ≠ 200 then throw .download
    else return false

/-- A file that has not been modified and is broken is asked for once more. -/
def downloadToPath (raw : RawURL) : Net Bool :=
  if !w.destOk then throw .download
  else do
    let skipped ← downloadToPathOnce w raw false
    if skipped then
      let t ← get
      if !w.needsRepair t.requests then return true
      else downloadToPathOnce w raw true
    else return false

/-- A stored resource: its URL in the list, and in the row when that is read again. -/
structure Resource where
  url : RawURL
  row : Option RawURL

/-- `applyDownloadAndPersist`, `Create` and `Update` alike: the URL is checked and then
downloaded. -/
def applyDownload : Option RawURL → Net Unit
  | none => throw .notFound
  | some raw =>
      if !w.destOk then throw .download
      else do
        let u ← sanitizeURL w raw
        let _ ← downloadToPath w (.parsed u)

/-- One resource at the start: an error is logged and the next one is taken. -/
def ensureOne (r : Resource) : Net Unit :=
  tryCatch (do
    let u ← sanitizeURL w r.url
    let t ← get
    if w.needsRepair t.requests then
      tryCatch (probeCustomGeoURL w (.parsed u)) fun _ => pure ()
      applyDownload w r.row) fun _ => pure ()

/-- Every source has its file. -/
def ensureOnStartup (list : List Resource) : Net Unit := list.forM (ensureOne w)

/-- The ways the transport is used. -/
inductive Call where
  | probe (raw : RawURL)
  | download (row : Option RawURL)
  | startup (list : List Resource)

/-- One call. -/
def perform : Call → Net Unit
  | .probe raw => probeCustomGeoURL w raw
  | .download row => applyDownload w row
  | .startup list => ensureOnStartup w list

end

/-! ## No connection to an internal address -/

/-- The connections so far go to addresses that are not internal. -/
def Allowed (t : Trace) : Prop := ∀ ip ∈ t.opened, isBlockedIP ip = false

/-- With this resolver no call opens a connection to an internal address. -/
def Guarded (resolve : ℕ → String → Option (List IP)) : Prop :=
  ∀ w : World, w.resolve = resolve → ∀ call t, t.opened = [] → Allowed (after (perform w call) t)

/-- After an answer without internal addresses the next one has none either. -/
def Steady (resolve : ℕ → String → Option (List IP)) : Prop :=
  ∀ n s, ∀ ips ∈ resolve n s, ips.any isBlockedIP = false →
    ∀ ips' ∈ resolve (n + 1) s, ips'.any isBlockedIP = false

section

variable {w : World}

/-- What the resolver says next. -/
def answer (w : World) (t : Trace) : Host → Option (List IP)
  | .literal ip => some [ip]
  | .name s => w.resolve t.lookups s

/-- A name costs a lookup. -/
def Trace.asked (t : Trace) : Host → Trace
  | .literal _ => t
  | .name _ => { t with lookups := t.lookups + 1 }

theorem lookupIPAddr_eq (host : Host) (t : Trace) :
    lookupIPAddr w host t = .ok (answer w t host) (t.asked host) := by
  cases host <;> rfl

theorem checkSSRF_eq (host : Host) (t : Trace) :
    checkSSRF w host t = if (answer w t host).all (fun ips => !ips.any isBlockedIP) && (answer w t host).isSome
      then .ok () (t.asked host) else .error .ssrfBlocked (t.asked host) := by
  show EStateM.bind (lookupIPAddr w host) _ t = _
  simp only [EStateM.bind, lookupIPAddr_eq]
  cases answer w t host with
  | none => rfl
  | some ips =>
      simp only [Option.all_some, Option.isSome_some, Bool.and_true]
      cases ips.any isBlockedIP <;> rfl

/-- The connections are to addresses the dialer was given. -/
theorem mem_of_mem_dialParallel {races : Bool} {accepts : IP → Bool} {addrs : List IP} {ip : IP}
    (h : ip ∈ dialParallel races accepts addrs) : ip ∈ addrs := by
  unfold dialParallel at h
  simp only at h
  split at h
  · rename_i ip' hfound
    rcases List.mem_cons.1 h with rfl | h
    · exact List.mem_of_mem_filter (List.mem_of_find?_eq_some hfound)
    · split at h
      · exact List.mem_of_mem_filter (List.mem_of_find?_eq_some (Option.mem_toList.1 h))
      · cases h
  · exact List.mem_of_mem_filter (List.mem_of_find?_eq_some (Option.mem_toList.1 h))

/-- The trace after the dialer has tried the addresses. -/
def Trace.dialed (w : World) (t : Trace) (addrs : List IP) : Trace :=
  { t with
    dials := t.dials + 1
    opened := t.opened ++ dialParallel (w.races t.dials) (w.accepts t.dials) addrs }

theorem dialerDial_eq (host : Host) (t : Trace) :
    dialerDial w host t = match answer w t host with
      | none => .error .request (t.asked host)
      | some addrs =>
          if dialParallel (w.races t.dials) (w.accepts t.dials) addrs = [] then
            .error .request ((t.asked host).dialed w addrs)
          else .ok () ((t.asked host).dialed w addrs) := by
  show (lookupIPAddr w host >>= _) t = _
  rw [bind_ok (lookupIPAddr_eq host t)]
  cases answer w t host with
  | none => rfl
  | some addrs =>
      have hdials : (t.asked host).dials = t.dials := by
        cases host <;> rfl
      show (if dialParallel (w.races (t.asked host).dials) (w.accepts (t.asked host).dials) addrs = []
        then throw .request else pure () : Net Unit) ((t.asked host).dialed w addrs) = _
      rw [hdials]
      simp only
      split <;> rfl

/-- A steady resolver says the same of internal addresses to the check and to the dialer. -/
theorem answer_again (hsteady : Steady w.resolve) {host : Host} {t : Trace} {ips : List IP}
    (h : answer w t host = some ips) (hips : ips.any isBlockedIP = false) :
    ∀ ips' ∈ answer w (t.asked host) host, ips'.any isBlockedIP = false := by
  intro ips' h'
  cases host with
  | literal ip =>
      cases h
      cases h'
      exact hips
  | name s => exact hsteady t.lookups s ips h hips ips' h'

theorem preserves_checkSSRF (host : Host) : Preserves Allowed (checkSSRF w host) := by
  intro t ht
  have hasked : Allowed (t.asked host) := by
    cases host <;> exact ht
  rw [after, checkSSRF_eq]
  split
  · rename_i hres
    split at hres <;> cases hres
    exact hasked
  · rename_i hres
    split at hres <;> cases hres
    exact hasked

theorem preserves_dialContext (hsteady : Steady w.resolve) (host : Host) :
    Preserves Allowed (dialContext w host) := by
  intro t ht
  have hchecked := preserves_checkSSRF (w := w) host t ht
  show Allowed (after (checkSSRF w host >>= fun _ => dialerDial w host) t)
  cases hcheck : checkSSRF w host t with
  | error e t' =>
      rw [after_bind_error hcheck]
      rw [after, hcheck] at hchecked
      exact hchecked
  | ok _ t' =>
      rw [after_bind_ok hcheck]
      rw [checkSSRF_eq] at hcheck
      split at hcheck
      · rename_i hpass
        cases hcheck
        rw [Bool.and_eq_true] at hpass
        obtain ⟨ips, hips⟩ := Option.isSome_iff_exists.1 hpass.2
        rw [hips, Option.all_some, Bool.not_eq_true'] at hpass
        have hagain := answer_again hsteady hips hpass.1
        have hasked : Allowed ((t.asked host).asked host) := by
          cases host <;> exact ht
        rw [after, dialerDial_eq]
        cases hanswer : answer w (t.asked host) host with
        | none => exact hasked
        | some addrs =>
            have hdialed : Allowed (((t.asked host).asked host).dialed w addrs) := by
              intro ip hip
              rcases List.mem_append.1 hip with hip | hip
              · exact hasked ip hip
              · have hno := List.any_eq_false.1 (hagain addrs hanswer) ip (mem_of_mem_dialParallel hip)
                exact Bool.eq_false_iff.2 hno
            simp only
            split <;> rename_i hres <;> split at hres <;> cases hres <;> exact hdialed
      · cases hcheck

theorem preserves_roundTrip (hsteady : Steady w.resolve) (idle : List Host) (u : URL) :
    Preserves Allowed (roundTrip w idle u) := by
  unfold roundTrip
  split
  · exact .throw _
  · split
    · exact .throw _
    · refine .bind ?_ fun n => .bind ?_ fun _ => .pure _
      · exact .modifyGet fun t ht => ht
      · unfold getConn
        split
        · exact .pure _
        · exact preserves_dialContext hsteady _

theorem preserves_follow (hsteady : Steady w.resolve) (n : ℕ) (idle : List Host) (u : URL) :
    Preserves Allowed (follow w n idle u) := by
  induction n generalizing idle u with
  | zero => exact .throw _
  | succ n ih =>
      rw [follow]
      refine .bind (preserves_roundTrip hsteady idle u) fun r => ?_
      split
      · exact .pure _
      · exact ih _ _
      · exact .throw _

theorem preserves_sanitizeURL (raw : RawURL) : Preserves Allowed (sanitizeURL w raw) := by
  unfold sanitizeURL
  split
  · exact .throw _
  · exact .throw _
  · split
    · exact .throw _
    · split
      · exact .throw _
      · exact .bind (preserves_checkSSRF _) fun _ => .pure _

/-- A request for a checked URL, whatever is made of its status. -/
theorem preserves_fetch (hsteady : Steady w.resolve) (raw : RawURL) {α : Type} {f : ℕ → Net α}
    (hf : ∀ sc, Preserves Allowed (f sc)) :
    Preserves Allowed (do let u ← sanitizeURL w raw; let sc ← clientDo w u; f sc) :=
  .bind (preserves_sanitizeURL raw) fun u => .bind (preserves_follow hsteady 10 [] u) hf

theorem preserves_probe (hsteady : Steady w.resolve) (raw : RawURL) :
    Preserves Allowed (probeCustomGeoURL w raw) := by
  refine preserves_fetch hsteady raw fun sc => ?_
  split
  · exact .pure _
  · split
    · exact preserves_fetch hsteady raw fun sc => .guard
    · exact .throw _

theorem preserves_downloadToPathOnce (hsteady : Steady w.resolve) (raw : RawURL) (forceFull : Bool) :
    Preserves Allowed (downloadToPathOnce w raw forceFull) := by
  unfold downloadToPathOnce
  split
  · exact .throw _
  · refine preserves_fetch hsteady raw fun sc => ?_
    split
    · exact .guard
    · exact .guard

theorem preserves_downloadToPath (hsteady : Steady w.resolve) (raw : RawURL) :
    Preserves Allowed (downloadToPath w raw) := by
  unfold downloadToPath
  split
  · exact .throw _
  · refine .bind (preserves_downloadToPathOnce hsteady _ _) fun skipped => ?_
    split
    · refine .bind .get fun t => ?_
      split
      · exact .pure _
      · exact preserves_downloadToPathOnce hsteady _ _
    · exact .pure _

theorem preserves_applyDownload (hsteady : Steady w.resolve) (row : Option RawURL) :
    Preserves Allowed (applyDownload w row) := by
  unfold applyDownload
  split
  · exact .throw _
  · split
    · exact .throw _
    · exact .bind (preserves_sanitizeURL _) fun u => .bind (preserves_downloadToPath hsteady _) fun _ => .pure _

theorem preserves_ensureOne (hsteady : Steady w.resolve) (r : Resource) :
    Preserves Allowed (ensureOne w r) := by
  refine .tryCatch ?_ fun _ => .pure _
  refine .bind (preserves_sanitizeURL _) fun u => .bind .get fun t => ?_
  split
  · exact .bind (.tryCatch (preserves_probe hsteady _) fun _ => .pure _) fun _ =>
      preserves_applyDownload hsteady _
  · exact .pure _

theorem preserves_perform (hsteady : Steady w.resolve) (call : Call) :
    Preserves Allowed (perform w call) := by
  cases call with
  | probe raw => exact preserves_probe hsteady raw
  | download row => exact preserves_applyDownload hsteady row
  | startup list => exact .forM (preserves_ensureOne hsteady) list

/-- Where only one address takes connections, the dialer finds it. -/
theorem mem_dialParallel_only {addrs : List IP} {ip : IP} (h : ip ∈ addrs) :
    ip ∈ dialParallel false (fun a => a == ip) addrs := by
  have hfind : ∀ l : List IP, ip ∈ l → l.find? (fun a => a == ip) = some ip := by
    intro l hl
    cases hf : l.find? fun a => a == ip with
    | none => exact absurd (beq_self_eq_true ip) (List.find?_eq_none.1 hf ip hl)
    | some a =>
        have heq : (a == ip) = true := List.find?_some (p := fun a => a == ip) hf
        rw [eq_of_beq heq]
  have hnone : ∀ l : List IP, ip ∉ l → l.find? (fun a => a == ip) = none := by
    intro l hl
    refine List.find?_eq_none.2 fun a ha heq => hl ?_
    rw [← eq_of_beq heq]
    exact ha
  unfold dialParallel
  simp only
  by_cases hfamily : (some ip.to4.isSome == addrs.head?.map fun ip => ip.to4.isSome) = true
  · rw [hfind _ (List.mem_filter.2 ⟨h, hfamily⟩)]
    exact List.mem_cons_self
  · rw [hnone _ fun hmem => hfamily (List.mem_filter.1 hmem).2,
      hfind _ (List.mem_filter.2 ⟨h, by rw [Bool.eq_false_iff.2 hfamily]; rfl⟩)]
    exact List.mem_singleton_self ip

end

/-! ## The resolver decides -/

/-- A server at a public address that redirects to a name. -/
def redirector : URL := { scheme := "http", host := some (.literal (.v4 8 8 8 8)) }

/-- The address of a host by name. -/
def named (s : String) : URL := { scheme := "http", host := some (.name s) }

/-- The redirecting server answers, and then only the one address does. -/
def lureWorld (resolve : ℕ → String → Option (List IP)) (s : String) (ip : IP) : World where
  resolve := resolve
  accepts k a := k == 0 || a == ip
  races _ := false
  reply
    | 0 => .redirect (named s)
    | _ + 1 => .final 200
  reuses _ := false

/-- A resolver that is not steady leads a redirect to an internal address. -/
theorem lured {resolve : ℕ → String → Option (List IP)} {n : ℕ} {s : String} {ips ips' : List IP} {ip : IP}
    (h : resolve n s = some ips) (hips : ips.any isBlockedIP = false) (h' : resolve (n + 1) s = some ips')
    (hip : ip ∈ ips') :
    ip ∈ (after (perform (lureWorld resolve s ip) (.probe (.parsed redirector))) { lookups := n }).opened := by
  have hfirst : roundTrip (lureWorld resolve s ip) [] redirector { lookups := n } =
      .ok (.redirect (named s), [.literal (.v4 8 8 8 8)])
        ⟨n, 1, 1, [.v4 8 8 8 8]⟩ := rfl
  have hconns : dialParallel false (fun a => 1 == 0 || a == ip) ips' ≠ [] :=
    List.ne_nil_of_mem (mem_dialParallel_only hip)
  have hcheck : checkSSRF (lureWorld resolve s ip) (.name s)
      ⟨n, 1, 2, [.v4 8 8 8 8]⟩ =
      .ok () ⟨n + 1, 1, 2, [.v4 8 8 8 8]⟩ := by
    rw [checkSSRF_eq]
    simp only [answer, lureWorld, h, Option.all_some, hips]
    rfl
  have hdial : dialerDial (lureWorld resolve s ip) (.name s)
      ⟨n + 1, 1, 2, [.v4 8 8 8 8]⟩ =
      .ok () ⟨n + 2, 2, 2, [.v4 8 8 8 8] ++ dialParallel false (fun a => 1 == 0 || a == ip) ips'⟩ := by
    have hanswer : answer (lureWorld resolve s ip) ⟨n + 1, 1, 2, [.v4 8 8 8 8]⟩ (.name s) = some ips' := h'
    rw [dialerDial_eq, hanswer]
    exact if_neg hconns
  have hsecond : roundTrip (lureWorld resolve s ip) [.literal (.v4 8 8 8 8)] (named s)
      ⟨n, 1, 1, [.v4 8 8 8 8]⟩ =
      .ok (.final 200, [.name s, .literal (.v4 8 8 8 8)])
        ⟨n + 2, 2, 2, [.v4 8 8 8 8] ++ dialParallel false (fun a => 1 == 0 || a == ip) ips'⟩ := by
    show ((dialContext (lureWorld resolve s ip) (.name s) >>= fun _ => pure _) : Net _)
      ⟨n, 1, 2, [.v4 8 8 8 8]⟩ = _
    rw [bind_ok (a := ()) (by exact (bind_ok hcheck).trans hdial)]
    rfl
  have hfollow : clientDo (lureWorld resolve s ip) redirector { lookups := n } =
      .ok 200 ⟨n + 2, 2, 2, [.v4 8 8 8 8] ++ dialParallel false (fun a => 1 == 0 || a == ip) ips'⟩ := by
    show (roundTrip (lureWorld resolve s ip) [] redirector >>= _) { lookups := n } = _
    rw [bind_ok hfirst]
    show (roundTrip (lureWorld resolve s ip) [.literal (.v4 8 8 8 8)] (named s) >>= _) _ = _
    rw [bind_ok hsecond]
    rfl
  have hsanitize : sanitizeURL (lureWorld resolve s ip) (.parsed redirector) { lookups := n } =
      .ok redirector { lookups := n } := rfl
  show ip ∈ (after (sanitizeURL (lureWorld resolve s ip) (.parsed redirector) >>= _) { lookups := n }).opened
  rw [after_bind_ok hsanitize, after_bind_ok hfollow]
  exact List.mem_append_right _ (mem_dialParallel_only hip)

/-- No connection to an internal address is opened, whatever the URLs and the redirects,
exactly when the resolver never has internal addresses right after it had none. -/
theorem guarded_iff_steady (resolve : ℕ → String → Option (List IP)) : Guarded resolve ↔ Steady resolve := by
  constructor
  · intro hguarded n s ips h hips ips' h'
    refine List.any_eq_false.2 fun ip hip => ?_
    have hopened := hguarded (lureWorld resolve s ip) rfl (.probe (.parsed redirector)) { lookups := n } rfl ip
      (lured h hips h' hip)
    rw [hopened]
    exact Bool.false_ne_true
  · rintro hsteady w rfl call t ht
    refine preserves_perform hsteady call t fun ip hip => ?_
    rw [ht] at hip
    cases hip

/-- A name with a public address for the two checks and the loopback for the dialer. -/
def rebinding (n : ℕ) (_ : String) : Option (List IP) :=
  some [if n < 2 then .v4 93 184 216 34 else .v4 127 0 0 1]

/-- Every address takes connections, and the server answers at once. -/
def openWorld : World where
  resolve := rebinding
  accepts _ _ := true
  races _ := false
  reply _ := .final 200
  reuses _ := false

theorem rebinding_not_guarded : ¬Guarded rebinding := by
  intro hguarded
  have hopened := hguarded openWorld rfl (.probe (.parsed (named "geo.example"))) {} rfl (.v4 127 0 0 1)
    (by decide +kernel)
  exact absurd hopened (by decide +kernel)

end Simorgh.Panel.CustomGeo
