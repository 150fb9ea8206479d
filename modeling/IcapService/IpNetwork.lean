import IcapService.Lib.Network

/-! The comparison of addresses with networks in `types_ops.c`.

An address of either family is kept in the same four words; an IPv4 address is the first of them. The words
are read in network byte order. -/

namespace IcapService

open Network

/-- `AF_INET` and `AF_INET6`. -/
inductive Family where
  | inet
  | inet6
  deriving DecidableEq

/-- A `ci_in_addr_t`. -/
structure InAddr where
  u0 : BitVec 32
  u1 : BitVec 32
  u2 : BitVec 32
  u3 : BitVec 32
  deriving DecidableEq

/-- The `s_addr` of the IPv4 member of the union. -/
def InAddr.ipv4Addr (a : InAddr) : BitVec 32 := a.u0

/-- A `ci_ip_t`. -/
structure Ip where
  family : Family
  address : InAddr
  netmask : InAddr
  deriving DecidableEq

/-- A `ci_sockaddr_t`: the family, and the memory that `ci_sin_addr` points to. -/
structure Sockaddr where
  sinFamily : Family
  sinAddr : InAddr
  deriving DecidableEq

/-- `ci_ipv4_inaddr_check_net`. -/
def ipv4InaddrCheckNet (addr1 addr2 mask : InAddr) : Bool :=
  (addr1.ipv4Addr &&& mask.ipv4Addr) == (addr2.ipv4Addr &&& mask.ipv4Addr)

/-- `ci_ipv6_inaddr_check_net`. -/
def ipv6InaddrCheckNet (addr1 addr2 mask : InAddr) : Bool :=
  (addr1.u0 &&& mask.u0) == (addr2.u0 &&& mask.u0) && (addr1.u1 &&& mask.u1) == (addr2.u1 &&& mask.u1) &&
    (addr1.u2 &&& mask.u2) == (addr2.u2 &&& mask.u2) && (addr1.u3 &&& mask.u3) == (addr2.u3 &&& mask.u3)

/-- `ci_ipv4_in_ipv6_check_net`. -/
def ipv4InIpv6CheckNet (addr1 addr2 mask : InAddr) : Bool :=
  addr2.u0 == 0 && addr2.u1 == 0 && addr2.u2 == 0xFFFF &&
    (addr1.ipv4Addr &&& mask.ipv4Addr) == (addr2.u3 &&& mask.ipv4Addr)

/-- `ci_ipv6_in_ipv4_check_net`. -/
def ipv6InIpv4CheckNet (addr1 addr2 mask : InAddr) : Bool :=
  addr1.u0 == 0 && addr1.u1 == 0 && addr1.u2 == 0xFFFF &&
    (addr1.u3 &&& mask.ipv4Addr) == (addr2.ipv4Addr &&& mask.ipv4Addr)

/-- The choice of the comparison, which `ip_equal` and `ip_sockaddr_equal` make alike. -/
def checkNet (ipRef : Ip) (family : Family) (address : InAddr) : Bool :=
  match family, ipRef.family with
  | .inet, .inet => ipv4InaddrCheckNet ipRef.address address ipRef.netmask
  | .inet, .inet6 => ipv6InIpv4CheckNet ipRef.address address ipRef.netmask
  | .inet6, .inet6 => ipv6InaddrCheckNet ipRef.address address ipRef.netmask
  | .inet6, .inet => ipv4InIpv6CheckNet ipRef.address address ipRef.netmask

/-- `ip_equal`; the second key may be null. -/
def ipEqual (ipRef : Ip) (ipCheck : Option Ip) : Bool :=
  match ipCheck with
  | none => false
  | some check => checkNet ipRef check.family check.address

/-- `ip_sockaddr_equal`. -/
def ipSockaddrEqual (ipRef : Ip) (ipCheck : Option Sockaddr) : Bool :=
  match ipCheck with
  | none => false
  | some check => checkNet ipRef check.sinFamily check.sinAddr

/-! ### Addresses of full width -/

def InAddr.bits (a : InAddr) : BitVec 128 := a.u0 ++ (a.u1 ++ (a.u2 ++ a.u3))

/-- `::ffff:a`. -/
def mapped (a : BitVec 32) : InAddr := ⟨0, 0, 0xFFFF, a⟩

/-- The IPv4 address `a` lies in the network: an IPv4 network by its own width, an IPv6 network as the mapped
address. -/
def Ip.Contains (ip : Ip) (a : BitVec 32) : Prop :=
  match ip.family with
  | .inet => InNet ip.address.ipv4Addr ip.netmask.ipv4Addr a
  | .inet6 => InNet ip.address.bits ip.netmask.bits (mapped a).bits

/-- Every IPv4 address gets the right answer from both comparisons, in both of its forms. -/
structure Ip.Agrees (ip : Ip) : Prop where
  ipv4 : ∀ check : Ip, check.family = .inet → (ipEqual ip (some check) = true ↔ ip.Contains check.address.ipv4Addr)
  ipv6 : ∀ (check : Ip) (a : BitVec 32), check.family = .inet6 → check.address = mapped a →
    (ipEqual ip (some check) = true ↔ ip.Contains a)
  sockaddr4 : ∀ check : Sockaddr, check.sinFamily = .inet →
    (ipSockaddrEqual ip (some check) = true ↔ ip.Contains check.sinAddr.ipv4Addr)
  sockaddr6 : ∀ (check : Sockaddr) (a : BitVec 32), check.sinFamily = .inet6 → check.sinAddr = mapped a →
    (ipSockaddrEqual ip (some check) = true ↔ ip.Contains a)

/-- An address of the form `::ffff:a`. -/
def InAddr.Mapped (a : InAddr) : Prop := a.u0 = 0 ∧ a.u1 = 0 ∧ a.u2 = 0xFFFF

/-- The front of the network lets mapped addresses in. -/
def Ip.AdmitsMapped (ip : Ip) : Prop :=
  InNet ip.address.u0 ip.netmask.u0 0 ∧ InNet ip.address.u1 ip.netmask.u1 0 ∧ InNet ip.address.u2 ip.netmask.u2 0xFFFF

/-- The network is IPv4, or its address is mapped and the first word of its mask is also the last, or there is
no mapped address in it. -/
def Ip.KeepsOff (ip : Ip) : Prop :=
  ip.family = .inet ∨ ip.address.Mapped ∧ ip.netmask.u0 = ip.netmask.u3 ∨ ¬ ip.address.Mapped ∧ ¬ ip.AdmitsMapped

theorem contains_inet6 {ip : Ip} (family : ip.family = .inet6) (a : BitVec 32) :
    ip.Contains a ↔ ip.AdmitsMapped ∧ InNet ip.address.u3 ip.netmask.u3 a := by
  simp only [Ip.Contains, family, InAddr.bits, mapped, inNet_append, Ip.AdmitsMapped, and_assoc]

/-- The mapped form of an address is compared in full. -/
theorem checkNet_mapped (ip : Ip) (a : BitVec 32) : checkNet ip .inet6 (mapped a) = true ↔ ip.Contains a := by
  cases family : ip.family with
  | inet => simp [checkNet, family, ipv4InIpv6CheckNet, mapped, Ip.Contains, InNet]
  | inet6 =>
      rw [contains_inet6 family]
      simp [checkNet, family, ipv6InaddrCheckNet, mapped, Ip.AdmitsMapped, InNet, and_assoc]

theorem checkNet_inet {ip : Ip} (family : ip.family = .inet) (address : InAddr) :
    checkNet ip .inet address = true ↔ ip.Contains address.ipv4Addr := by
  simp [checkNet, family, ipv4InaddrCheckNet, Ip.Contains, InNet]

/-- An IPv6 network is compared with an IPv4 address under the first word of its mask. -/
theorem checkNet_inet6 {ip : Ip} (family : ip.family = .inet6) (address : InAddr) :
    checkNet ip .inet address = true ↔ ip.address.Mapped ∧ InNet ip.address.u3 ip.netmask.u0 address.ipv4Addr := by
  simp [checkNet, family, ipv6InIpv4CheckNet, InAddr.Mapped, InAddr.ipv4Addr, InNet, and_assoc]

theorem InAddr.Mapped.admits {ip : Ip} (mapped : ip.address.Mapped) : ip.AdmitsMapped := by
  obtain ⟨zero, one, two⟩ := mapped
  rw [Ip.AdmitsMapped, zero, one, two]
  exact ⟨inNet_self _ _, inNet_self _ _, inNet_self _ _⟩

/-- The IPv4 form of an address gets the right answer exactly in these networks. -/
theorem checkNet_agrees_iff (ip : Ip) :
    (∀ address : InAddr, checkNet ip .inet address = true ↔ ip.Contains address.ipv4Addr) ↔ ip.KeepsOff := by
  cases family : ip.family with
  | inet => exact iff_of_true (checkNet_inet family) (.inl family)
  | inet6 =>
      have other : ip.family ≠ .inet := by rw [family]; decide
      have each : ∀ a : BitVec 32, ∃ address : InAddr, address.ipv4Addr = a := fun a => ⟨⟨a, 0, 0, 0⟩, rfl⟩
      simp only [checkNet_inet6 family, contains_inet6 family]
      constructor
      · intro agrees
        refine .inr ?_
        by_cases here : ip.address.Mapped
        · refine .inl ⟨here, mask_unique (r := ip.address.u3) (fun a => ?_)⟩
          obtain ⟨address, rfl⟩ := each a
          have same := agrees address
          rwa [and_iff_right here, and_iff_right here.admits] at same
        · refine .inr ⟨here, fun admits => ?_⟩
          obtain ⟨address, same⟩ := each ip.address.u3
          exact here ((agrees address).mpr ⟨admits, by rw [same]; exact inNet_self _ _⟩).1
      · rintro (inet | ⟨here, same⟩ | ⟨here, closed⟩) address
        · exact absurd inet other
        · rw [and_iff_right here, and_iff_right here.admits, same]
        · exact iff_of_false (fun inside => here inside.1) (fun inside => closed inside.1)

/-- Both comparisons answer alike for the two forms of every IPv4 address, and rightly, exactly in these
networks. -/
theorem ip_agrees_iff (ip : Ip) : ip.Agrees ↔ ip.KeepsOff := by
  rw [← checkNet_agrees_iff]
  constructor
  · intro agrees address
    exact agrees.ipv4 ⟨.inet, address, address⟩ rfl
  · intro right
    refine ⟨fun check family => ?_, fun check a family same => ?_, fun check family => ?_, fun check a family same => ?_⟩
    · rw [ipEqual, family]
      exact right check.address
    · rw [ipEqual, family, same]
      exact checkNet_mapped ip a
    · rw [ipSockaddrEqual, family]
      exact right check.sinAddr
    · rw [ipSockaddrEqual, family, same]
      exact checkNet_mapped ip a

/-- `::ffff:10.0.0.0/ffff:ffff:ffff:ffff:ffff:ffff:ff00:0`. -/
def mappedNetwork : Ip := ⟨.inet6, mapped 0x0A000000, ⟨0xFFFFFFFF, 0xFFFFFFFF, 0xFFFFFFFF, 0xFF000000⟩⟩

/-- 10.1.2.3 lies in the network; its IPv4 form is not found there, its mapped form is. -/
theorem ipv4_form_not_found :
    ¬ mappedNetwork.Agrees ∧
      ipEqual mappedNetwork (some ⟨.inet, ⟨0x0A010203, 0, 0, 0⟩, ⟨0xFFFFFFFF, 0, 0, 0⟩⟩) = false ∧
      ipEqual mappedNetwork (some ⟨.inet6, mapped 0x0A010203, mapped 0xFFFFFFFF⟩) = true := by
  refine ⟨fun agrees => ?_, by decide, by decide⟩
  have inside : mappedNetwork.Contains 0x0A010203 := by
    change InNet mappedNetwork.address.bits mappedNetwork.netmask.bits (mapped 0x0A010203).bits
    decide
  have found := (agrees.ipv4 ⟨.inet, ⟨0x0A010203, 0, 0, 0⟩, ⟨0xFFFFFFFF, 0, 0, 0⟩⟩ rfl).mpr inside
  exact absurd found (by decide)

end IcapService
