import SimpleDns.Wire.Name

/-!
# The compiled-in zone (`static_zone`, `dns_server.c:1389-1398`)
-/

namespace SimpleDns.Server

open Wire

/-- `dns_rec_t`. -/
structure DnsRec where
  name : Text
  type : Nat
  ttl : Nat
  rdataStr : Text
  rdataA : Bytes
  rdataPref : Nat
deriving DecidableEq, Repr

/-- `static_zone`. -/
def staticZone : List DnsRec :=
  [⟨lit "example.local", RRType.A, 300, [], [192, 168, 1, 10], 0⟩,
    ⟨lit "www.example.local", RRType.A, 300, [], [192, 168, 1, 10], 0⟩,
    ⟨lit "mail.example.local", RRType.A, 300, [], [192, 168, 1, 20], 0⟩,
    ⟨lit "example.local", RRType.AAAA, 300, lit "2001:db8::1", [], 0⟩,
    ⟨lit "example.local", RRType.MX, 300, lit "mail.example.local", [], 10⟩,
    ⟨lit "example.local", RRType.NS, 300, lit "ns1.example.local", [], 0⟩,
    ⟨lit "example.local", RRType.TXT, 300, lit "v=spf1 mx ~all", [], 0⟩]

end SimpleDns.Server
