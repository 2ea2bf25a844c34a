import SwiftEvent.Kernel
import Mathlib.Data.List.Basic
import Mathlib.Tactic.SplitIfs

/-!
# Socket addresses

`SocketAddress.swift`: a `sockaddr_storage` with the length the system calls are
given, and the factories that overlay a `sockaddr_in` or a `sockaddr_in6` on a
zeroed storage.  The layout is that of Linux; the byte order of the host is a
parameter, since `ss_family` is stored in it while ports are converted with
`bigEndian`.

`inet_pton(3)` is a parameter: per family, a partial function to an address of
the size of that family.
-/

namespace SwiftEvent

/-- `SocketError`. -/
inductive SocketError
  | invalidAddress (host : String)
  | connectionFailed (errno : Errno)
  | bindFailed (errno : Errno)
  | listenFailed (errno : Errno)
  | acceptFailed (errno : Errno)
  | readFailed (errno : Errno)
  | writeFailed (errno : Errno)
  | socketCreationFailed (errno : Errno)
  | connectionClosed
  | timeout
deriving DecidableEq, Repr

/-- The byte order of the host. -/
inductive Endian
  | little
  | big
deriving DecidableEq, Repr

/-- The two bytes in which the host stores a 16-bit value. -/
def Endian.store16 : Endian → UInt16 → List UInt8
  | .little, n => [UInt8.ofNat (n.toNat % 256), UInt8.ofNat (n.toNat / 256)]
  | .big, n => [UInt8.ofNat (n.toNat / 256), UInt8.ofNat (n.toNat % 256)]

/-- The 16-bit value the host finds in two bytes. -/
def Endian.load16 : Endian → List UInt8 → UInt16
  | .little, [lo, hi] => UInt16.ofNat (lo.toNat + 256 * hi.toNat)
  | .big, [hi, lo] => UInt16.ofNat (lo.toNat + 256 * hi.toNat)
  | _, _ => 0

@[simp] theorem Endian.length_store16 (endian : Endian) (n : UInt16) :
    (endian.store16 n).length = 2 := by
  cases endian <;> rfl

theorem Endian.load16_store16 (endian : Endian) (n : UInt16) :
    endian.load16 (endian.store16 n) = n := by
  have bound : n.toNat < 65536 := n.toNat_lt
  apply UInt16.toNat_inj.mp
  cases endian <;>
    simp only [Endian.store16, Endian.load16, UInt8.toNat_ofNat', UInt16.toNat_ofNat'] <;>
    omega

/-- `UInt16.bigEndian`, which is its own inverse. -/
def Endian.bigEndian : Endian → UInt16 → UInt16
  | .little, n => UInt16.ofNat (n.toNat / 256 + 256 * (n.toNat % 256))
  | .big, n => n

/-- `AF_INET`. -/
def afInet : UInt16 := 2

/-- `AF_INET6`. -/
def afInet6 : UInt16 := 10

/-- `struct sockaddr_storage`, as its 128 bytes. -/
structure SockaddrStorage where
  bytes : List UInt8
  size : bytes.length = 128
deriving DecidableEq

/-- A structure copied over the front of a zeroed storage. -/
def SockaddrStorage.overlay (src : List UInt8) : SockaddrStorage where
  bytes := (src ++ List.replicate 128 0).take 128
  size := by simp

/-- `storage.ss_family`. -/
def SockaddrStorage.ssFamily (storage : SockaddrStorage) (endian : Endian) : UInt16 :=
  endian.load16 (storage.bytes.take 2)

theorem SockaddrStorage.ssFamily_overlay (endian : Endian) (family : UInt16)
    (rest : List UInt8) :
    (overlay (endian.store16 family ++ rest)).ssFamily endian = family := by
  have front : ((overlay (endian.store16 family ++ rest)).bytes).take 2
      = endian.store16 family := by
    rw [overlay, List.take_take, List.append_assoc, Nat.min_eq_left (by omega),
      List.take_append_of_le_length (by simp)]
    exact List.take_of_length_le (by simp)
  rw [ssFamily, front, Endian.load16_store16]

/-- `SocketAddress`. -/
structure SocketAddress where
  storage : SockaddrStorage
  length : Nat
deriving DecidableEq

/-- `inet_pton(3)`, for each family; a rejected host gives `none`. -/
structure InetPton where
  inet : String → Option { addr : List UInt8 // addr.length = 4 }
  inet6 : String → Option { addr : List UInt8 // addr.length = 16 }

/-- The bytes of a `sockaddr_in`. -/
def sockaddrIn (endian : Endian) (port : UInt16) (sinAddr : List UInt8) : List UInt8 :=
  endian.store16 afInet ++ endian.store16 (endian.bigEndian port) ++ sinAddr
    ++ List.replicate 8 0

/-- The bytes of a `sockaddr_in6`, with no flow label and no scope. -/
def sockaddrIn6 (endian : Endian) (port : UInt16) (sin6Addr : List UInt8) : List UInt8 :=
  endian.store16 afInet6 ++ endian.store16 (endian.bigEndian port) ++ List.replicate 4 0
    ++ sin6Addr ++ List.replicate 4 0

namespace SocketAddress

variable (endian : Endian) (inetPton : InetPton)

/-- The family in which the system calls read the address. -/
def family (address : SocketAddress) : Option Family :=
  if address.storage.ssFamily endian = afInet then some .inet
  else if address.storage.ssFamily endian = afInet6 then some .inet6
  else none

/-- `SocketAddress.from(storage:length:)`. -/
def fromStorage (storage : SockaddrStorage) (length : Nat) : Option SocketAddress :=
  let family := storage.ssFamily endian
  if family = afInet ∨ family = afInet6 then some ⟨storage, length⟩ else none

/-- `SocketAddress.ipv4(_:port:)`. -/
def ipv4 (host : String) (port : UInt16) : Except SocketError SocketAddress :=
  match inetPton.inet host with
  | none => .error (.invalidAddress host)
  | some sinAddr => .ok ⟨.overlay (sockaddrIn endian port sinAddr), 16⟩

/-- `SocketAddress.ipv6(_:port:)`. -/
def ipv6 (host : String) (port : UInt16) : Except SocketError SocketAddress :=
  match inetPton.inet6 host with
  | none => .error (.invalidAddress host)
  | some sin6Addr => .ok ⟨.overlay (sockaddrIn6 endian port sin6Addr), 28⟩

/-- `SocketAddress.anyIPv4(port:)`. -/
def anyIPv4 (port : UInt16) : SocketAddress :=
  ⟨.overlay (sockaddrIn endian port [0, 0, 0, 0]), 16⟩

/-- The `port` accessor; `sin_port` and `sin6_port` are both the second two bytes. -/
def port (address : SocketAddress) : UInt16 :=
  let family := address.storage.ssFamily endian
  if family = afInet then endian.bigEndian (endian.load16 ((address.storage.bytes.drop 2).take 2))
  else if family = afInet6 then
    endian.bigEndian (endian.load16 ((address.storage.bytes.drop 2).take 2))
  else 0

/-- An address that one of the factories has returned. -/
inductive Built : SocketAddress → Prop
  | ipv4 {host : String} {port : UInt16} {address : SocketAddress}
      (h : ipv4 endian inetPton host port = .ok address) : Built address
  | ipv6 {host : String} {port : UInt16} {address : SocketAddress}
      (h : ipv6 endian inetPton host port = .ok address) : Built address
  | anyIPv4 (port : UInt16) : Built (anyIPv4 endian port)
  | fromStorage {storage : SockaddrStorage} {length : Nat} {address : SocketAddress}
      (h : fromStorage endian storage length = some address) : Built address

variable {endian inetPton}

theorem family_overlay_sockaddrIn (port : UInt16) (sinAddr : List UInt8) (length : Nat) :
    family endian ⟨.overlay (sockaddrIn endian port sinAddr), length⟩ = some .inet := by
  rw [family, sockaddrIn, List.append_assoc, List.append_assoc,
    SockaddrStorage.ssFamily_overlay, if_pos rfl]

theorem family_overlay_sockaddrIn6 (port : UInt16) (sin6Addr : List UInt8) (length : Nat) :
    family endian ⟨.overlay (sockaddrIn6 endian port sin6Addr), length⟩ = some .inet6 := by
  rw [family, sockaddrIn6, List.append_assoc, List.append_assoc, List.append_assoc,
    SockaddrStorage.ssFamily_overlay, if_neg (by decide), if_pos rfl]

/-- **Every address of the package is IPv4 or IPv6.** -/
theorem Built.family_isSome {address : SocketAddress} (built : Built endian inetPton address) :
    (family endian address).isSome := by
  cases built with
  | ipv4 h =>
      rw [SocketAddress.ipv4] at h
      split at h
      · cases h
      · cases h; rw [family_overlay_sockaddrIn]; rfl
  | ipv6 h =>
      rw [SocketAddress.ipv6] at h
      split at h
      · cases h
      · cases h; rw [family_overlay_sockaddrIn6]; rfl
  | anyIPv4 port => rw [SocketAddress.anyIPv4, family_overlay_sockaddrIn]; rfl
  | fromStorage h =>
      rw [SocketAddress.fromStorage] at h
      split at h
      · next supported =>
          cases h
          rw [family]
          split_ifs with inet inet6
          · rfl
          · rfl
          · exact (supported.elim inet inet6).elim
      · cases h

/-! ## Encoding and decoding -/

/-- Where everything is in the storage: the family as the host stores it, the port in the byte
order of the network, the address after `pad` bytes, and zeros. -/
structure Encodes (endian : Endian) (address : SocketAddress) (family : UInt16) (size pad : Nat)
    (addr : List UInt8) (port : UInt16) : Prop where
  family : address.storage.ssFamily endian = family
  length : address.length = size
  portBytes : (address.storage.bytes.drop 2).take 2 = Endian.big.store16 port
  addrBytes : (address.storage.bytes.drop (4 + pad)).take addr.length = addr
  zeros : ∀ i, 4 ≤ i → i < 128 → (i < 4 + pad ∨ 4 + pad + addr.length ≤ i) →
    address.storage.bytes[i]? = some 0

end SocketAddress

theorem SockaddrStorage.bytes_overlay {src : List UInt8} (fits : src.length ≤ 128) :
    (overlay src).bytes = src ++ List.replicate (128 - src.length) 0 := by
  show (src ++ List.replicate 128 0).take 128 = _
  rw [List.take_append, List.take_of_length_le fits, List.take_replicate,
    Nat.min_eq_left (Nat.sub_le _ _)]

theorem Endian.toNat_bigEndian_little (n : UInt16) :
    (Endian.little.bigEndian n).toNat = n.toNat / 256 + 256 * (n.toNat % 256) := by
  have bound : n.toNat < 65536 := n.toNat_lt
  rw [Endian.bigEndian, UInt16.toNat_ofNat']
  omega

/-- The swap on the way in: what the host stores is big-endian. -/
theorem Endian.store16_bigEndian (endian : Endian) (n : UInt16) :
    endian.store16 (endian.bigEndian n) = Endian.big.store16 n := by
  have bound : n.toNat < 65536 := n.toNat_lt
  cases endian with
  | big => rfl
  | little =>
      have swapped := Endian.toNat_bigEndian_little n
      have low : (Endian.little.bigEndian n).toNat % 256 = n.toNat / 256 := by omega
      have high : (Endian.little.bigEndian n).toNat / 256 = n.toNat % 256 := by omega
      rw [Endian.store16, low, high]
      rfl

/-- The swap on the way out. -/
theorem Endian.bigEndian_load16 (endian : Endian) (n : UInt16) :
    endian.bigEndian (endian.load16 (Endian.big.store16 n)) = n := by
  have bound : n.toNat < 65536 := n.toNat_lt
  rw [← endian.store16_bigEndian n, Endian.load16_store16]
  cases endian with
  | big => rfl
  | little =>
      apply UInt16.toNat_inj.mp
      rw [Endian.toNat_bigEndian_little, Endian.toNat_bigEndian_little]
      omega

namespace SocketAddress

variable {address : SocketAddress} {addr : List UInt8} {size pad : Nat} {port : UInt16}

/-- What the factories put into the storage is an encoding. -/
theorem encodes_of_bytes {family : UInt16} {tail : Nat}
    (bytes : address.storage.bytes = endian.store16 family ++ (Endian.big.store16 port ++
      (List.replicate pad 0 ++ (addr ++ List.replicate tail 0))))
    (length : address.length = size) : Encodes endian address family size pad addr port := by
  have total := address.storage.size
  rw [bytes] at total
  simp only [List.length_append, Endian.length_store16, List.length_replicate] at total
  constructor
  case family =>
    rw [SockaddrStorage.ssFamily, bytes, List.take_left' (by simp), Endian.load16_store16]
  case length => exact length
  case portBytes =>
    rw [bytes, List.drop_left' (by simp), List.take_left' (by simp)]
  case addrBytes =>
    have front : 4 + pad = ((endian.store16 family ++ Endian.big.store16 port) ++
        List.replicate pad (0 : UInt8)).length := by
      simp only [List.length_append, Endian.length_store16, List.length_replicate]
    rw [bytes, ← List.append_assoc, ← List.append_assoc, front, List.drop_left, List.take_left]
  case zeros =>
    intro i late there outside
    rw [bytes, List.getElem?_append_right (by simp; omega),
      List.getElem?_append_right (by simp; omega)]
    simp only [Endian.length_store16]
    rcases outside with before | behind
    · rw [List.getElem?_append_left (by simp; omega), List.getElem?_replicate, if_pos (by omega)]
    · rw [List.getElem?_append_right (by simp; omega),
        List.getElem?_append_right (by simp; omega)]
      simp only [List.length_replicate]
      rw [List.getElem?_replicate, if_pos (by omega)]

theorem ipv4_bytes (port : UInt16) (fits : addr.length = 4) :
    (SockaddrStorage.overlay (sockaddrIn endian port addr)).bytes =
      endian.store16 afInet ++ (Endian.big.store16 port ++
        (List.replicate 0 0 ++ (addr ++ List.replicate 120 0))) := by
  have length : (sockaddrIn endian port addr).length = 16 := by simp [sockaddrIn, fits]
  rw [SockaddrStorage.bytes_overlay (by omega), length, sockaddrIn, Endian.store16_bigEndian]
  simp only [List.append_assoc, List.replicate_zero, List.nil_append,
    List.replicate_append_replicate]

theorem ipv6_bytes (port : UInt16) (fits : addr.length = 16) :
    (SockaddrStorage.overlay (sockaddrIn6 endian port addr)).bytes =
      endian.store16 afInet6 ++ (Endian.big.store16 port ++
        (List.replicate 4 0 ++ (addr ++ List.replicate 104 0))) := by
  have length : (sockaddrIn6 endian port addr).length = 28 := by simp [sockaddrIn6, fits]
  rw [SockaddrStorage.bytes_overlay (by omega), length, sockaddrIn6, Endian.store16_bigEndian]
  simp only [List.append_assoc, List.replicate_append_replicate]

/-- What an encoding decodes to. -/
theorem Encodes.port_eq {family : UInt16} (h : Encodes endian address family size pad addr port)
    (supported : family = afInet ∨ family = afInet6) : address.port endian = port := by
  rw [SocketAddress.port, h.family, h.portBytes, Endian.bigEndian_load16]
  rcases supported with rfl | rfl
  · rfl
  · rfl

theorem Encodes.fromStorage_eq {family : UInt16}
    (h : Encodes endian address family size pad addr port)
    (supported : family = afInet ∨ family = afInet6) :
    fromStorage endian address.storage address.length = some address := by
  rw [fromStorage, h.family]
  exact if_pos supported

/-- A factory has made the address of these parts. -/
inductive Makes (endian : Endian) (inetPton : InetPton) :
    SocketAddress → Family → List UInt8 → UInt16 → Prop
  | ipv4 {host : String} {port : UInt16} {address : SocketAddress}
      {sinAddr : { addr : List UInt8 // addr.length = 4 }}
      (accepted : inetPton.inet host = some sinAddr)
      (h : ipv4 endian inetPton host port = .ok address) :
      Makes endian inetPton address .inet sinAddr port
  | ipv6 {host : String} {port : UInt16} {address : SocketAddress}
      {sin6Addr : { addr : List UInt8 // addr.length = 16 }}
      (accepted : inetPton.inet6 host = some sin6Addr)
      (h : ipv6 endian inetPton host port = .ok address) :
      Makes endian inetPton address .inet6 sin6Addr port

theorem ipv4_encodes (endian : Endian) {host : String} (port : UInt16)
    {sinAddr : { addr : List UInt8 // addr.length = 4 }}
    (accepted : inetPton.inet host = some sinAddr) :
    ∃ address, ipv4 endian inetPton host port = .ok address ∧
      Encodes endian address afInet 16 0 sinAddr port := by
  refine ⟨_, by rw [ipv4, accepted], ?_⟩
  exact encodes_of_bytes (ipv4_bytes port sinAddr.property) rfl

theorem ipv6_encodes (endian : Endian) {host : String} (port : UInt16)
    {sin6Addr : { addr : List UInt8 // addr.length = 16 }}
    (accepted : inetPton.inet6 host = some sin6Addr) :
    ∃ address, ipv6 endian inetPton host port = .ok address ∧
      Encodes endian address afInet6 28 4 sin6Addr port := by
  refine ⟨_, by rw [ipv6, accepted], ?_⟩
  exact encodes_of_bytes (ipv6_bytes port sin6Addr.property) rfl

/-- The parts a factory was given can be read off the address. -/
theorem Makes.encodes {family : Family} (h : Makes endian inetPton address family addr port) :
    (family = .inet ∧ addr.length = 4 ∧ Encodes endian address afInet 16 0 addr port) ∨
      (family = .inet6 ∧ addr.length = 16 ∧ Encodes endian address afInet6 28 4 addr port) := by
  cases h with
  | @ipv4 host port address sinAddr accepted made =>
      obtain ⟨address', made', encodes⟩ := ipv4_encodes endian port accepted
      rw [made, Except.ok.injEq] at made'
      subst made'
      exact Or.inl ⟨rfl, sinAddr.property, encodes⟩
  | @ipv6 host port address sin6Addr accepted made =>
      obtain ⟨address', made', encodes⟩ := ipv6_encodes endian port accepted
      rw [made, Except.ok.injEq] at made'
      subst made'
      exact Or.inr ⟨rfl, sin6Addr.property, encodes⟩

/-- The outcome of a factory whose host `inet_pton` rejects, or accepts with an address. -/
def Faithful (endian : Endian) (outcome : Except SocketError SocketAddress) (host : String)
    (accepted : Option (List UInt8)) (family : UInt16) (size pad : Nat) (port : UInt16) : Prop :=
  (outcome = .error (.invalidAddress host) ↔ accepted = none) ∧
    ∀ addr, accepted = some addr → ∃ address, outcome = .ok address ∧
      Encodes endian address family size pad addr port ∧ address.port endian = port ∧
      fromStorage endian address.storage address.length = some address

/-- A factory that rejects with its host, or encodes, is faithful. -/
theorem faithful_of_encodes {outcome : Except SocketError SocketAddress} {host : String}
    {accepted : Option (List UInt8)} {family : UInt16}
    (supported : family = afInet ∨ family = afInet6)
    (rejects : accepted = none → outcome = .error (.invalidAddress host))
    (encodes : ∀ addr, accepted = some addr → ∃ address, outcome = .ok address ∧
      Encodes endian address family size pad addr port) :
    Faithful endian outcome host accepted family size pad port := by
  refine ⟨⟨fun threw => ?_, rejects⟩, fun addr some_ => ?_⟩
  · by_contra some_
    obtain ⟨addr, some_⟩ := Option.ne_none_iff_exists'.mp some_
    obtain ⟨address, returned, -⟩ := encodes addr some_
    rw [threw] at returned
    cases returned
  · obtain ⟨address, returned, encodes⟩ := encodes addr some_
    exact ⟨address, returned, encodes, encodes.port_eq supported,
      encodes.fromStorage_eq supported⟩

theorem ipv4_faithful (host : String) (port : UInt16) :
    Faithful endian (ipv4 endian inetPton host port) host ((inetPton.inet host).map Subtype.val)
      afInet 16 0 port := by
  apply faithful_of_encodes (Or.inl rfl)
  · intro rejected
    rw [ipv4, Option.map_eq_none_iff.mp rejected]
  · intro addr accepted
    obtain ⟨sinAddr, parsed, rfl⟩ := Option.map_eq_some_iff.mp accepted
    exact ipv4_encodes endian port parsed

theorem ipv6_faithful (host : String) (port : UInt16) :
    Faithful endian (ipv6 endian inetPton host port) host ((inetPton.inet6 host).map Subtype.val)
      afInet6 28 4 port := by
  apply faithful_of_encodes (Or.inr rfl)
  · intro rejected
    rw [ipv6, Option.map_eq_none_iff.mp rejected]
  · intro addr accepted
    obtain ⟨sin6Addr, parsed, rfl⟩ := Option.map_eq_some_iff.mp accepted
    exact ipv6_encodes endian port parsed

/-- An address determines what it was made of. -/
theorem Makes.inj {family family' : Family} {addr' : List UInt8} {port' : UInt16}
    (h : Makes endian inetPton address family addr port)
    (h' : Makes endian inetPton address family' addr' port') :
    family = family' ∧ addr = addr' ∧ port = port' := by
  have apart : afInet ≠ afInet6 := by decide
  rcases h.encodes with ⟨rfl, size, e⟩ | ⟨rfl, size, e⟩
  · rcases h'.encodes with ⟨rfl, size', e'⟩ | ⟨rfl, size', e'⟩
    · refine ⟨rfl, ?_, ?_⟩
      · rw [← e.addrBytes, ← e'.addrBytes, size, size']
      · rw [← e.port_eq (Or.inl rfl), ← e'.port_eq (Or.inl rfl)]
    · exact absurd (e.family.symm.trans e'.family) apart
  · rcases h'.encodes with ⟨rfl, size', e'⟩ | ⟨rfl, size', e'⟩
    · exact absurd (e'.family.symm.trans e.family) apart
    · refine ⟨rfl, ?_, ?_⟩
      · rw [← e.addrBytes, ← e'.addrBytes, size, size']
      · rw [← e.port_eq (Or.inr rfl), ← e'.port_eq (Or.inr rfl)]

/-- **Addresses encode and decode faithfully**, on a host of either byte order, where `inet_pton`
reads `"0.0.0.0"` as four zeros. -/
theorem addresses_faithful (endian : Endian) (inetPton : InetPton)
    (wildcard : (inetPton.inet "0.0.0.0").map Subtype.val = some [0, 0, 0, 0]) :
    (∀ host port,
      Faithful endian (ipv4 endian inetPton host port) host
        ((inetPton.inet host).map Subtype.val) afInet 16 0 port ∧
      Faithful endian (ipv6 endian inetPton host port) host
        ((inetPton.inet6 host).map Subtype.val) afInet6 28 4 port) ∧
    (∀ port, ipv4 endian inetPton "0.0.0.0" port = .ok (anyIPv4 endian port)) ∧
    ∀ address family family' addr addr' port port',
      Makes endian inetPton address family addr port →
      Makes endian inetPton address family' addr' port' →
      family = family' ∧ addr = addr' ∧ port = port' := by
  refine ⟨fun host port => ⟨ipv4_faithful host port, ipv6_faithful host port⟩, fun port => ?_, ?_⟩
  · obtain ⟨sinAddr, accepted, zero⟩ := Option.map_eq_some_iff.mp wildcard
    rw [ipv4, accepted, anyIPv4]
    dsimp only
    rw [zero]
  · intro address family family' addr addr' port port' made made'
    exact made.inj made'

/-- What `inet_pton` makes of three literals. -/
def literals : InetPton where
  inet host :=
    if host = "0.0.0.0" then some ⟨[0, 0, 0, 0], rfl⟩
    else if host = "127.0.0.1" then some ⟨[127, 0, 0, 1], rfl⟩
    else none
  inet6 host :=
    if host = "::1" then some ⟨[0, 0, 0, 0, 0, 0, 0, 0, 0, 0, 0, 0, 0, 0, 0, 1], rfl⟩ else none

theorem addresses_faithful_loopback :
    Faithful .little (ipv4 .little literals "127.0.0.1" 8080) "127.0.0.1" (some [127, 0, 0, 1])
        afInet 16 0 8080 ∧
      (ipv4 .little literals "127.0.0.1" 8080).map (·.storage.bytes.take 8) =
        .ok [2, 0, 31, 144, 127, 0, 0, 1] := by
  refine ⟨?_, by decide⟩
  exact ((addresses_faithful .little literals (by decide)).1 "127.0.0.1" 8080).1

end SocketAddress

end SwiftEvent
