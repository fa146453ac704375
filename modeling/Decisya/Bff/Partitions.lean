import Decisya.Bff.RateLimitOptions
import Decisya.Text.Numeral
import Decisya.Text.UrlSplit

/-!
# What a request is counted under

The partition step names a session, a client address or the shared bucket. The limiter is chained: the
bucket of the route class, and after it the bucket of the api. Every bucket is kept under a text made
of the class, the kind and the value; the window in it is the framework's and a parameter here.
-/

namespace Decisya.Bff.RateLimiting

open Decisya.Bff.Configuration (Str)

set_option autoImplicit false

/-! ## Addresses -/

/-- An address in network order. -/
structure Octets (n : ℕ) where
  bytes : List UInt8
  length_eq : bytes.length = n
  deriving DecidableEq

inductive IPAddress where
  | v4 (address : Octets 4)
  | v6 (address : Octets 16) (scopeId : UInt32)
  deriving DecidableEq

def IPAddress.any : IPAddress := .v4 ⟨List.replicate 4 0, rfl⟩

def IPAddress.ipv6Any : IPAddress := .v6 ⟨List.replicate 16 0, rfl⟩ 0

def isIPv4MappedToIPv6 (address : Octets 16) : Bool :=
  decide (address.bytes.take 12 = List.replicate 10 0 ++ [255, 255])

def mapToIPv4 (address : Octets 16) : Octets 4 :=
  ⟨address.bytes.drop 12, by rw [List.length_drop, address.length_eq]⟩

/-- An IPv6 address without its scope. -/
def normalize : IPAddress → IPAddress
  | .v4 address => .v4 address
  | .v6 address _ => if isIPv4MappedToIPv6 address = true then .v4 (mapToIPv4 address) else .v6 address 0

def dotted (address : Octets 4) : Str := ['.'].intercalate (address.bytes.map fun b => decimal b.toNat)

def hexByte (b : UInt8) : Str := [Nat.digitChar (b.toNat / 16), Nat.digitChar (b.toNat % 16)]

def toHexStringLower (bytes : List UInt8) : Str := bytes.flatMap hexByte

/-! ## The partition step -/

inductive PartitionKind where
  | session
  | ip
  | unknown
  deriving DecidableEq

/-- `RateLimitNames.Of` -/
def PartitionKind.name : PartitionKind → Str
  | .session => "session".toList
  | .ip => "ip".toList
  | .unknown => "unknown".toList

structure Partition where
  kind : PartitionKind
  value : Str
  deriving DecidableEq

def Partition.shared : Partition := ⟨.unknown, ['-']⟩

def fromAddress (address : Option IPAddress) (trustedProxies : List IPAddress) : Partition :=
  match address with
  | none => .shared
  | some address =>
    let normalized := normalize address
    if normalized = .any ∨ normalized = .ipv6Any then .shared
    else if (trustedProxies.any fun proxy => decide (normalized = proxy)) = true then .shared
    else
      match normalized with
      | .v6 address _ => ⟨.ip, "v6:".toList ++ toHexStringLower (address.bytes.take 8)⟩
      | .v4 address => ⟨.ip, "v4:".toList ++ dotted address⟩

/-- `session` is the key of the ticket when the cookie authenticates. -/
structure Request where
  routeClass : Option RouteClass
  session : Option Str
  remoteIpAddress : Option IPAddress

/-- What the partition step is given: the keyed hash, and the trusted proxies, which are normalised when
they are read. -/
structure Middleware where
  mac : Str → List UInt8
  trustedProxies : List IPAddress

def domainLabel : Str := "decisya.bff.ratelimit.session.v1".toList ++ [Char.ofNat 0]

def Middleware.hash (middleware : Middleware) (sessionKey : Str) : Str :=
  toHexStringLower ((middleware.mac (domainLabel ++ sessionKey)).take 16)

structure Feature where
  routeClass : RouteClass
  partition : Partition

def isApiOrAdmin (routeClass : RouteClass) : Bool :=
  decide (routeClass = .api ∨ routeClass = .admin)

def Middleware.invoke (middleware : Middleware) (request : Request) : Option Feature :=
  request.routeClass.map fun routeClass =>
    ⟨routeClass,
      match if isApiOrAdmin routeClass = true then request.session else none with
      | some sessionKey => ⟨.session, middleware.hash sessionKey⟩
      | none => fromAddress request.remoteIpAddress middleware.trustedProxies⟩

/-! ## The limiter -/

def key (bucketClass : RouteClass) (partition : Partition) : Str :=
  bucketClass.name ++ '|' :: (partition.kind.name ++ '|' :: partition.value)

structure Bucket where
  key : Str
  permitLimit : ℤ
  windowSeconds : ℤ
  segments : ℕ

def segmentsFor (routeClass : RouteClass) : ℕ :=
  if routeClass = .login ∨ routeClass = .backchannelLogout then 4 else 6

/-- `none` is the partition without a limiter. -/
def classBucket (options : BffRateLimitOptions) (feature : Feature) : Option Bucket :=
  if feature.routeClass = .api then none
  else
    let limit := options.limitFor feature.routeClass
    some ⟨key feature.routeClass feature.partition, limit.permitLimit, limit.windowSeconds,
      segmentsFor feature.routeClass⟩

def apiBucket (options : BffRateLimitOptions) (feature : Feature) : Option Bucket :=
  if isApiOrAdmin feature.routeClass = false then none
  else
    let limit := options.api
    let permits :=
      if feature.partition.kind = .session then limit.permitLimit else limit.anonymousPermitLimit
    some ⟨key .api feature.partition, permits, limit.windowSeconds, segmentsFor .api⟩

/-- A window of permits. `heartbeat` is `none` when the window is idle and its bucket is given up. -/
structure Window (ω τ : Type) where
  create : (permitLimit windowSeconds : ℤ) → (segments : ℕ) → ω
  attemptAcquire : τ → ω → Bool × ω
  heartbeat : τ → ω → Option ω

abbrev Buckets (ω : Type) := Str → Option ω

section Limiter
variable {ω τ : Type} (window : Window ω τ) (middleware : Middleware)
  (options : BffRateLimitOptions)

def acquire (t : τ) (bucket : Option Bucket) (s : Buckets ω) : Bool × Buckets ω :=
  match bucket with
  | none => (true, s)
  | some b =>
    let held := (s b.key).getD (window.create b.permitLimit b.windowSeconds b.segments)
    let (acquired, left) := window.attemptAcquire t held
    (acquired, Function.update s b.key (some left))

/-- The chain stops at the first refusal, and what was acquired before it stays taken. -/
def attempt (t : τ) (request : Request) (s : Buckets ω) : Bool × Buckets ω :=
  match middleware.invoke request with
  | none => (true, s)
  | some feature =>
    let (acquired, s₁) := acquire window t (classBucket options feature) s
    if acquired then acquire window t (apiBucket options feature) s₁ else (false, s₁)

/-- A request may be tried more than once before its answer is sent. -/
inductive Event (τ : Type) where
  | attempt (t : τ) (request : Request)
  | heartbeat (t : τ)

def step (e : Event τ) (s : Buckets ω) : Option (Request × Bool) × Buckets ω :=
  match e with
  | .attempt t request =>
    let (acquired, s') := attempt window middleware options t request s
    (some (request, acquired), s')
  | .heartbeat t => (none, fun k => (s k).bind (window.heartbeat t))

/-- Each attempt with its answer. -/
def run : List (Event τ) → Buckets ω → List (Request × Bool)
  | [], _ => []
  | e :: rest, s =>
    let (answer, s') := step window middleware options e s
    answer.toList ++ run rest s'

end Limiter

/-! ## Clients -/

/-- Whom a request is from, as far as the limiter tells: the hash of a session, an IPv4 address, the
first half of an IPv6 address, or nobody in particular. -/
inductive Client where
  | session (hash : List UInt8)
  | ipv4 (address : Octets 4)
  | ipv6 (high : List UInt8)
  | unknown
  deriving DecidableEq

def Client.partition : Client → Partition
  | .session hash => ⟨.session, toHexStringLower hash⟩
  | .ipv4 address => ⟨.ip, "v4:".toList ++ dotted address⟩
  | .ipv6 high => ⟨.ip, "v6:".toList ++ toHexStringLower high⟩
  | .unknown => .shared

def addressClient (trustedProxies : List IPAddress) (address : IPAddress) : Client :=
  if address = .any ∨ address = .ipv6Any ∨
      (trustedProxies.any fun proxy => decide (address = proxy)) = true then .unknown
  else
    match address with
    | .v4 address => .ipv4 address
    | .v6 address _ => .ipv6 (address.bytes.take 8)

/-- A mapped address counts as the IPv4 address it is, and a scope does not count. -/
def Middleware.remoteClient (middleware : Middleware) (request : Request) : Client :=
  (request.remoteIpAddress.map fun address =>
    addressClient middleware.trustedProxies (normalize address)).getD .unknown

/-- `none` for a request that is not limited. -/
def Middleware.client (middleware : Middleware) (request : Request) : Option Client :=
  request.routeClass.map fun routeClass =>
    match if isApiOrAdmin routeClass = true then request.session else none with
    | some sessionKey => .session ((middleware.mac (domainLabel ++ sessionKey)).take 16)
    | none => middleware.remoteClient request

theorem fromAddress_eq (address : Option IPAddress) (trustedProxies : List IPAddress) :
    fromAddress address trustedProxies = ((address.map fun address =>
      addressClient trustedProxies (normalize address)).getD .unknown).partition := by
  cases address with
  | none => rfl
  | some address =>
    simp only [fromAddress, addressClient, Option.map_some, Option.getD_some]
    by_cases hany : normalize address = .any ∨ normalize address = .ipv6Any
    · rw [if_pos hany, if_pos (by tauto)]
      rfl
    · rw [if_neg hany]
      by_cases hproxy : (trustedProxies.any fun proxy => decide (normalize address = proxy)) = true
      · rw [if_pos hproxy, if_pos (.inr (.inr hproxy))]
        rfl
      · rw [if_neg hproxy, if_neg (by tauto)]
        cases normalize address <;> rfl

theorem invoke_eq_some {middleware : Middleware} {request : Request} {feature : Feature}
    (h : middleware.invoke request = some feature) :
    ∃ c, middleware.client request = some c ∧ feature.partition = c.partition := by
  obtain ⟨routeClass, hclass, rfl⟩ := Option.map_eq_some_iff.mp h
  unfold Middleware.client
  rw [hclass]
  refine ⟨_, rfl, ?_⟩
  dsimp only
  cases (if isApiOrAdmin routeClass = true then request.session else none) with
  | none => exact fromAddress_eq _ _
  | some sessionKey => rfl

theorem client_eq_none {middleware : Middleware} {request : Request}
    (h : middleware.invoke request = none) : middleware.client request = none := by
  have hclass : request.routeClass = none := Option.map_eq_none_iff.mp h
  unfold Middleware.client
  rw [hclass]
  rfl

/-! ## One text for one client -/

theorem decimal_injective {m n : ℕ} (h : decimal m = decimal n) : m = n := by
  have hvalue := congrArg (fun s => Nat.ofDigitChars 10 s 0) h
  simpa [decimal, Nat.ofDigitChars_toDigits] using hvalue

theorem dot_not_mem_decimal (n : ℕ) : '.' ∉ decimal n := by
  intro h
  have hdigit := Numeral.isDigit_toDigits h
  revert hdigit
  decide

theorem dotted_injective {a b : Octets 4} (h : dotted a = dotted b) : a = b := by
  have hdot : ∀ a : Octets 4, ∀ s ∈ a.bytes.map fun b => decimal b.toNat, '.' ∉ s := by
    intro a s hs
    obtain ⟨b, -, rfl⟩ := List.mem_map.mp hs
    exact dot_not_mem_decimal _
  have hne : ∀ a : Octets 4, (a.bytes.map fun b => decimal b.toNat) ≠ [] := by
    intro a hnil
    have hlength := a.length_eq
    rw [List.map_eq_nil_iff.mp hnil] at hlength
    cases hlength
  have hmap := Text.intercalate_injective (hdot a) (hdot b) (hne a) (hne b) h
  have hinjective : Function.Injective fun b : UInt8 => decimal b.toNat :=
    fun x y hxy => UInt8.toNat_inj.mp (decimal_injective hxy)
  have hbytes := List.map_injective_iff.mpr hinjective hmap
  cases a
  cases b
  cases hbytes
  rfl

theorem digitChar_injective : ∀ m < 16, ∀ n < 16, Nat.digitChar m = Nat.digitChar n → m = n := by decide

theorem hexByte_injective {x y : UInt8} (h : hexByte x = hexByte y) : x = y := by
  have hx := x.toNat_lt
  have hy := y.toNat_lt
  simp only [hexByte, List.cons.injEq, and_true] at h
  have hhigh := digitChar_injective _ (by omega) _ (by omega) h.1
  have hlow := digitChar_injective _ (by omega) _ (by omega) h.2
  apply UInt8.toNat_inj.mp
  omega

theorem toHexStringLower_injective {xs ys : List UInt8}
    (h : toHexStringLower xs = toHexStringLower ys) : xs = ys := by
  induction xs generalizing ys with
  | nil =>
    cases ys with
    | nil => rfl
    | cons y ys => simp [toHexStringLower, hexByte] at h
  | cons x xs ih =>
    cases ys with
    | nil => simp [toHexStringLower, hexByte] at h
    | cons y ys =>
      have hsplit : hexByte x ++ toHexStringLower xs = hexByte y ++ toHexStringLower ys := h
      obtain ⟨hbyte, hrest⟩ := List.append_inj hsplit rfl
      rw [hexByte_injective hbyte, ih hrest]

theorem Client.partition_injective {c d : Client} (h : c.partition = d.partition) : c = d := by
  cases c <;> cases d <;> simp [Client.partition, Partition.shared] at h
  · rw [toHexStringLower_injective h]
  · rw [dotted_injective h]
  · rw [toHexStringLower_injective h]
  · rfl

theorem bar_not_mem_name (routeClass : RouteClass) : '|' ∉ routeClass.name := by
  cases routeClass <;> decide

theorem bar_not_mem_kind (kind : PartitionKind) : '|' ∉ kind.name := by
  cases kind <;> decide

theorem kind_name_injective {kind kind' : PartitionKind} (h : kind.name = kind'.name) : kind = kind' := by
  cases kind <;> cases kind' <;> first | rfl | exact absurd h (by decide)

theorem key_injective {c d : RouteClass} {p q : Partition} (h : key c p = key d q) : p = q := by
  have hrest := congrArg (Python.after '|') h
  unfold key at hrest
  rw [Python.after_append (bar_not_mem_name c), Python.after_append (bar_not_mem_name d)] at hrest
  have hkind := congrArg (Python.before '|') hrest
  rw [Python.before_append (bar_not_mem_kind _), Python.before_append (bar_not_mem_kind _)] at hkind
  have hvalue := congrArg (Python.after '|') hrest
  rw [Python.after_append (bar_not_mem_kind _), Python.after_append (bar_not_mem_kind _)] at hvalue
  obtain ⟨kind, value⟩ := p
  obtain ⟨kind', value'⟩ := q
  have hkinds : kind = kind' := kind_name_injective hkind
  have hvalues : value = value' := hvalue
  rw [hkinds, hvalues]

/-! ## A client among others -/

section Isolation
variable {ω τ : Type} {W : Window ω τ} {middleware : Middleware} (options : BffRateLimitOptions)

/-- The two states are the same in every bucket of the client. -/
def Agree (c : Client) (s s' : Buckets ω) : Prop :=
  ∀ bucketClass, s (key bucketClass c.partition) = s' (key bucketClass c.partition)

/-- The bucket is one of the client's. -/
def Of (c : Client) (bucket : Option Bucket) : Prop :=
  ∀ b, bucket = some b → ∃ bucketClass, b.key = key bucketClass c.partition

variable {c d : Client} {s s' : Buckets ω} {t : τ}

theorem of_classBucket {feature : Feature} (h : feature.partition = c.partition) :
    Of c (classBucket options feature) := by
  intro b hb
  unfold classBucket at hb
  split at hb
  · cases hb
  · cases hb
    exact ⟨_, by rw [← h]⟩

theorem of_apiBucket {feature : Feature} (h : feature.partition = c.partition) :
    Of c (apiBucket options feature) := by
  intro b hb
  unfold apiBucket at hb
  split at hb
  · cases hb
  · cases hb
    exact ⟨_, by rw [← h]⟩

/-- A client's own bucket gives the same answer in both states. -/
theorem acquire_own {bucket : Option Bucket} (hbucket : Of c bucket) (h : Agree c s s') :
    (acquire W t bucket s).1 = (acquire W t bucket s').1 ∧
      Agree c (acquire W t bucket s).2 (acquire W t bucket s').2 := by
  cases bucket with
  | none => exact ⟨rfl, h⟩
  | some b =>
    obtain ⟨bucketClass, hkey⟩ := hbucket b rfl
    have hheld : s b.key = s' b.key := by
      rw [hkey]
      exact h bucketClass
    simp only [acquire, hheld]
    refine ⟨trivial, fun other => ?_⟩
    by_cases hother : key other c.partition = b.key
    · simp [hother]
    · simp [Function.update_of_ne hother, h other]

/-- Another's bucket leaves the client's as they are. -/
theorem acquire_other {bucket : Option Bucket} (hbucket : Of d bucket) (hne : d ≠ c) :
    Agree c (acquire W t bucket s).2 s := by
  cases bucket with
  | none => exact fun _ => rfl
  | some b =>
    intro other
    obtain ⟨bucketClass, hkey⟩ := hbucket b rfl
    have hother : key other c.partition ≠ b.key := by
      rw [hkey]
      intro h
      exact hne (Client.partition_injective (key_injective h)).symm
    simp [acquire, Function.update_of_ne hother]

variable {request : Request}

theorem attempt_own (hclient : middleware.client request = some c) (h : Agree c s s') :
    (attempt W middleware options t request s).1 = (attempt W middleware options t request s').1 ∧
      Agree c (attempt W middleware options t request s).2
        (attempt W middleware options t request s').2 := by
  cases hinvoke : middleware.invoke request with
  | none =>
    rw [client_eq_none hinvoke] at hclient
    cases hclient
  | some feature =>
    obtain ⟨c', hc', hpartition⟩ := invoke_eq_some hinvoke
    obtain rfl : c' = c := Option.some.inj (hc'.symm.trans hclient)
    obtain ⟨hanswer, hagree⟩ := acquire_own (W := W) (t := t)
      (of_classBucket options hpartition) h
    simp only [attempt, hinvoke, ← hanswer]
    cases (acquire W t (classBucket options feature) s).1 with
    | false => exact ⟨rfl, hagree⟩
    | true => exact acquire_own (of_apiBucket options hpartition) hagree

theorem attempt_other (hclient : middleware.client request ≠ some c) :
    Agree c (attempt W middleware options t request s).2 s := by
  cases hinvoke : middleware.invoke request with
  | none =>
    simp only [attempt, hinvoke]
    exact fun _ => rfl
  | some feature =>
    obtain ⟨d, hd, hpartition⟩ := invoke_eq_some hinvoke
    have hne : d ≠ c := by
      rintro rfl
      exact hclient hd
    have hfirst : Agree c (acquire W t (classBucket options feature) s).2 s :=
      acquire_other (of_classBucket options hpartition) hne
    simp only [attempt, hinvoke]
    cases (acquire W t (classBucket options feature) s).1 with
    | false => exact hfirst
    | true =>
      intro bucketClass
      have hsecond : Agree c (acquire W t (apiBucket options feature)
          (acquire W t (classBucket options feature) s).2).2 _ :=
        acquire_other (of_apiBucket options hpartition) hne
      exact (hsecond bucketClass).trans (hfirst bucketClass)

theorem heartbeat_own (h : Agree c s s') : Agree c (step W middleware options (.heartbeat t) s).2
    (step W middleware options (.heartbeat t) s').2 := by
  intro bucketClass
  simp only [step, h bucketClass]

/-- The heartbeats, and the attempts of one client. -/
def Middleware.concerns (middleware : Middleware) (c : Client) : Event τ → Bool
  | .attempt _ request => decide (middleware.client request = some c)
  | .heartbeat _ => true

theorem run_own (events : List (Event τ)) (h : Agree c s s') :
    (run W middleware options events s).filter
        (fun x => decide (middleware.client x.1 = some c)) =
      run W middleware options (events.filter (middleware.concerns c)) s' := by
  induction events generalizing s s' with
  | nil => rfl
  | cons e rest ih =>
    cases e with
    | heartbeat t =>
      have hagree : Agree c (step W middleware options (.heartbeat t) s).2
          (step W middleware options (.heartbeat t) s').2 := heartbeat_own options h
      have hnext := ih hagree
      rw [List.filter_cons_of_pos (by rfl)]
      exact hnext
    | attempt t request =>
      by_cases hclient : middleware.client request = some c
      · obtain ⟨hanswer, hagree⟩ := attempt_own (W := W) (t := t) options hclient h
        have hnext := ih hagree
        rw [List.filter_cons_of_pos (by simp [Middleware.concerns, hclient])]
        simp only [run, step, Option.toList_some, List.singleton_append]
        rw [List.filter_cons_of_pos (by simp [hclient]), hanswer, hnext]
      · have hother := attempt_other (W := W) (t := t) (s := s) options hclient
        have hnext := ih fun bucketClass => (hother bucketClass).trans (h bucketClass)
        rw [List.filter_cons_of_neg (by simp [Middleware.concerns, hclient])]
        simp only [run, step, Option.toList_some, List.singleton_append]
        rw [List.filter_cons_of_neg (by simp [hclient]), hnext]

/-- Nobody uses up another client's permits: its requests are answered as in the run that has no
other requests. -/
theorem run_alone (W : Window ω τ) (middleware : Middleware) (options : BffRateLimitOptions)
    (c : Client) (events : List (Event τ)) :
    (run W middleware options events fun _ => none).filter
        (fun x => decide (middleware.client x.1 = some c)) =
      run W middleware options (events.filter (middleware.concerns c)) fun _ => none :=
  run_own options events fun _ => rfl

end Isolation

end Decisya.Bff.RateLimiting
