import SimpleDns.Wire.Addr

/-!
# Type names (`type2str`, `dns_wire.c:977-1051`)
-/

namespace SimpleDns.Wire

/-- The types `type2str` names. -/
def typeNames : List (Nat × String) :=
  [(1, "A"), (2, "NS"), (5, "CNAME"), (6, "SOA"), (12, "PTR"), (15, "MX"), (16, "TXT"), (24, "SIG"),
    (25, "KEY"), (28, "AAAA"), (29, "LOC"), (33, "SRV"), (35, "NAPTR"), (39, "DNAME"),
    (44, "SSHFP"), (43, "DS"), (46, "RRSIG"), (47, "NSEC"), (48, "DNSKEY"), (50, "NSEC3"),
    (51, "NSEC3PARAM"), (52, "TLSA"), (59, "CDS"), (60, "CDNSKEY"), (62, "CSYNC"), (63, "ZONEMD"),
    (64, "SVCB"), (65, "HTTPS"), (256, "URI"), (257, "CAA"), (251, "IXFR"), (252, "AXFR"),
    (255, "ANY")]

/-- `type2str`. -/
def type2str (t : Nat) : Text :=
  match typeNames.lookup t with
  | some s => lit s
  | none => lit "TYPE" ++ decimal t

end SimpleDns.Wire
