import SimpleDns.Epp.Effect

/-!
# Domain commands and transfers have their effects

`Does` for the handlers of `Epp.Domain` and for `epp_domain_transfer`.

* `wp_eppDomainParseNs`: the loop over the name servers stores hosts of `hostAttr` elements.
* `Updated.updateRem` and its companions: each stage of an update keeps `Updated`.
-/

namespace SimpleDns.Epp

open Wire Lib Server List Option

variable {long : Prop} {sess : Session} {cmd q : Bytes} {s : Db}

/-! ## Name servers of a create -/

/-- A name of a request is kept whole in its array. -/
theorem text_copy_strlower {t : Text} (h : 0 ∉ t) (hlen : t.length < 256) :
    (CString.copy (strlower t) : CString 256).text = strlower t := by
  refine CString.text_copy (fun h0 => ?_) (by rwa [length_strlower])
  obtain ⟨b, hb, hlow⟩ := mem_map.mp h0
  exact h (lowerByte_eq_zero.mp hlow ▸ hb)

theorem text_copy_textIn (content : Bytes) :
    (CString.copy (strlower (textIn content 256)) : CString 256).text =
      strlower (textIn content 256) :=
  text_copy_strlower (notMem_cstr _) ((length_cstr_le _).trans_lt (length_textDecode (by decide)))

theorem text_copy_optionalText (range : Bytes) (tag : Text) :
    (CString.copy (strlower (optionalText range tag 256)) : CString 256).text =
      strlower (optionalText range tag 256) := by
  unfold optionalText
  split
  · exact text_copy_textIn _
  · rfl

/-- A `hostAttr` element stores its host, or leaves the store where the host does not encode. -/
theorem wp_storeHostAttr {attr : Bytes} {hn : Text} {Q : Unit → Db → Prop}
    (h : ∀ t : Db, s.clock ≤ t.clock →
      (∀ l u, AttrHosts l t.keys u → AttrHosts ((hn, attr) :: l) s.keys u) → Q () t) :
    Ends long (storeHostAttr attr hn) Q s := by
  rw [storeHostAttr, wp_bind, wp_get]
  cases hget : vkGet s.keys (hostKey hn) vkcBuf with
  | some blob =>
    dsimp only
    split
    · exact h s (le_refl _) fun l u hu => .same hu
    · rename_i raw henc
      exact wp_set_then fun _ => h _ (le_refl _) fun l u => .known hget henc
  | none =>
    have hnew : s.keys (hostKey hn) = none := map_eq_none_iff.mp hget
    rw [wp_bind]
    refine wp_eppGenRoid fun roid => ?_
    rw [wp_bind]
    refine wp_now32 fun now hnow => ?_
    split
    · exact h _ hnow fun l u hu => .same hu
    · rename_i raw henc
      exact wp_set_then fun _ => h _ hnow fun l u => .fresh hnew henc (Host.clid_addAddrs _ _)

/-- A loop that starts with some name servers and meets others returns all of them, if it returns
any. -/
def Parsed (ns : Slots (CString 256)) (l : List (Text × Option Bytes))
    (r : Option (Slots (CString 256))) : Prop :=
  ∀ ns', r = some ns' → ns'.list.map CString.text = ns.list.map CString.text ++ l.map Prod.fst

theorem Parsed.stop (ns : Slots (CString 256)) : Parsed ns [] (some ns) := by
  intro ns' hr
  cases hr
  rw [map_nil, append_nil]

theorem Parsed.none (ns : Slots (CString 256)) (l : List (Text × Option Bytes)) :
    Parsed ns l none := nofun

theorem Parsed.push {ns : Slots (CString 256)} {hn : Text} {o : Option Bytes}
    {l : List (Text × Option Bytes)} {r : Option (Slots (CString 256))}
    (hroom : ns.list.length < eppMaxArr) (hcopy : (CString.copy hn : CString 256).text = hn)
    (h : Parsed (ns.push (.copy hn)) l r) : Parsed ns ((hn, o) :: l) r := by
  intro ns' hr
  rw [h ns' hr, Slots.list_push hroom, map_append, map_singleton, hcopy, map_cons,
    append_assoc, singleton_append]

theorem wp_parseNsLoop {fuel : Nat} {range : Bytes} {ns : Slots (CString 256)}
    {Q : Option (Slots (CString 256)) → Db → Prop}
    (h : ∀ r t, s.clock ≤ t.clock →
      AttrHosts (attrsOf (serverLoop fuel range ns.list.length)) s.keys t.keys →
      Parsed ns (serverLoop fuel range ns.list.length) r → Q r t) :
    Ends long (parseNsLoop fuel range ns) Q s := by
  induction fuel generalizing range ns s with
  | zero => exact h _ _ (le_refl _) (.stop _ _) (.stop ns)
  | succ fuel ih =>
    rw [parseNsLoop]
    rw [serverLoop] at h
    by_cases hroom : ns.list.length < eppMaxArr
    · have hlen : ∀ hn : Text, (ns.push (.copy hn)).list.length = ns.list.length + 1 := by
        intro hn
        rw [Slots.list_push hroom, length_append, length_singleton]
      rw [if_pos hroom]
      rw [if_pos hroom] at h
      cases hobj : child range (lit "domain:hostObj") with
      | some obj =>
        rw [hobj] at h
        rw [wp_bind, wp_get]
        split
        · refine ih fun r t ht hattrs hns => ?_
          rw [hlen] at hattrs hns
          exact h r t ht hattrs (hns.push hroom (text_copy_textIn _))
        · exact h _ _ (le_refl _) (.stop _ _) (.none _ _)
      | none =>
        rw [hobj] at h
        cases hattr : child range (lit "domain:hostAttr") with
        | none =>
          rw [hattr] at h
          exact h _ _ (le_refl _) (.stop _ _) (.stop ns)
        | some attr =>
          rw [hattr] at h
          dsimp only at h ⊢
          split
          · rename_i hempty
            rw [if_pos hempty] at h
            exact ih h
          · rename_i hsome
            rw [if_neg hsome] at h
            rw [wp_bind]
            refine wp_storeHostAttr fun t ht hstep => ih fun r t' ht' hattrs hns => ?_
            rw [hlen] at hattrs hns
            exact h r t' (ht.trans ht') (hstep _ _ hattrs)
              (hns.push hroom (text_copy_optionalText _ _))
    · rw [if_neg hroom]
      rw [if_neg hroom] at h
      exact h _ _ (le_refl _) (.stop _ _) (.stop ns)

theorem wp_eppDomainParseNs {Q : Option (Slots (CString 256)) → Db → Prop}
    (h : ∀ r t, s.clock ≤ t.clock → AttrHosts (hostAttrs q) s.keys t.keys →
      (∀ ns, r = some ns → ns.list.map CString.text = serverNames q) → Q r t) :
    Ends long (eppDomainParseNs q) Q s := by
  unfold eppDomainParseNs
  unfold hostAttrs serverNames servers at h
  split
  · rename_i hsec
    rw [hsec] at h
    exact h _ _ (le_refl _) (.stop _ _) (Parsed.stop default)
  · rename_i sec hsec
    rw [hsec] at h
    exact wp_parseNsLoop h

/-! ## Fees -/

theorem wp_configText {key : Text} {cap : Nat} {defval : String} {Q : Text → Db → Prop}
    (h : ∀ x, Q x s) : Ends long (configText key cap defval) Q s := by
  rw [configText, wp_bind, wp_get]
  split
  · exact h _
  · exact h _

theorem wp_withFee {feeTag command wraptag : String} {cap : Nat} {data : Text}
    {Q : Text → Db → Prop} (h : ∀ x, Q x s) :
    Ends long (withFee cmd feeTag command wraptag cap data) Q s := by
  unfold withFee
  split
  · rw [wp_bind, eppFeeResponseExtension, wp_bind]
    refine wp_configText fun currency => ?_
    rw [wp_bind]
    exact wp_configText fun fee => h _
  · exact h _

/-! ## Create -/

theorem does_eppDomainCreate :
    Handles long sess (.object .create .domain cmd q) (eppDomainCreate sess cmd q) s := by
  refine wp_withName refusable_does fun t ht => wp_unlessExists refusable_does fun hnew => ?_
  rw [wp_bind]
  refine wp_eppDomainParseNs fun parsed m hm hattrs hns => ?_
  obtain ⟨keys, clock, roid⟩ := m
  cases parsed with
  | none => exact wp_plain fun _ => .of (.domainRefused ht hnew hattrs) hm
  | some ns =>
    rw [wp_bind]
    refine wp_eppGenAuthinfo fun authinfo => ?_
    rw [wp_bind]
    refine wp_eppGenRoid fun r => ?_
    rw [wp_bind]
    refine wp_now32 fun now hnow => ?_
    rw [wp_bind]
    refine wp_eppCfgSecs ?_
    have hclock : s.clock ≤ now := hm.trans hnow
    refine wp_storeThen (fun _ _ _ => .of (.domainRefused ht hnew hattrs) hclock)
      fun raw henc hsent => ?_
    -- a `split` here would take the DS block apart first
    refine wp_ite (fun hnone => ?_) fun hsome => ?_
    · rw [wp_bind]
      refine wp_withFee fun extra => wp_completed fun _ => .of ?_ hclock
      exact .domainCreate ht hnew hattrs rfl rfl rfl (hns ns rfl) rfl henc
        ⟨hsent, fun hpub => absurd hnone hpub, fun _ => rfl⟩
    · rw [wp_bind]
      refine wp_eppPublishDomain fun out hout hpub => ?_
      rw [wp_bind]
      refine wp_withFee fun extra => wp_completed fun _ => .of ?_ hclock
      exact .domainCreate ht hnew hattrs rfl rfl rfl (hns ns rfl) rfl henc
        ⟨hsent, fun _ => ⟨out, hout, hpub, rfl⟩, fun hno => absurd hsome hno⟩

/-! ## The stages of an update -/

section Stages

variable {d : Domain} {e : Edit}

theorem Updated.refl (cmd q : Bytes) (d : Domain) : Updated cmd q d ⟨d, false⟩ :=
  ⟨rfl, rfl, rfl, rfl, rfl, fun _ => ⟨rfl, rfl⟩, .inl rfl, fun _ hn => .inl hn, fun _ hn _ => hn,
    nofun⟩

/-- A stage that starts from what another one has made. -/
theorem Updated.restart (h : Updated cmd q d e) : Updated cmd q e.domain e :=
  ⟨rfl, rfl, rfl, rfl, rfl, fun _ => ⟨rfl, rfl⟩, .inl rfl, fun _ hn => .inl hn, fun _ hn _ => hn,
    h.touches⟩

/-- Other statuses, another registrant or another authorisation. -/
theorem Updated.other (h : Updated cmd q d e) (status : Slots (CString 32))
    (registrant : CString 64) (authinfo : CString 256) :
    Updated cmd q d { e with domain := { e.domain with
      status := status, registrant := registrant, authinfo := authinfo } } :=
  ⟨h.clid, h.exdate, h.transferReid, h.transferRedate, h.transferStatus, h.delegation, h.rgp,
    h.added, h.kept, h.touches⟩

/-- Other name servers and DS entries, with the change noted. -/
theorem Updated.withNs (h : Updated cmd q d e) (ds : Slots Ds) {ns : Slots (CString 256)}
    (hadded : ∀ n ∈ ns.list, n ∈ e.domain.ns.list ∨ n.text ∈ listedNs q "add")
    (hkept : ∀ n ∈ e.domain.ns.list, ¬ Removes q n → n ∈ ns.list)
    (htouches : TouchesDelegation cmd q) :
    Updated cmd q d ⟨{ e.domain with ns := ns, ds := ds }, true⟩ where
  clid := h.clid
  exdate := h.exdate
  transferReid := h.transferReid
  transferRedate := h.transferRedate
  transferStatus := h.transferStatus
  delegation := nofun
  rgp := h.rgp.imp_right fun ⟨hred, hnone, _⟩ => ⟨hred, hnone, rfl⟩
  added n hn := (hadded n hn).elim (h.added n) .inr
  kept n hn hrem := hkept n (h.kept n hn hrem) hrem
  touches _ := htouches

/-- Other DS entries, with the change noted. -/
theorem Updated.withDs (h : Updated cmd q d e) (ds : Slots Ds)
    (htouches : TouchesDelegation cmd q) :
    Updated cmd q d ⟨{ e.domain with ds := ds }, true⟩ :=
  h.withNs ds (fun _ => .inl) (fun _ hn _ => hn) htouches

theorem Slots.removeIf_eq_self {α : Type} {l : Slots α} {p : α → Bool}
    (h : l.list.any p = false) : l.removeIf p = l := by
  ext1
  refine filter_eq_self.mpr fun a ha => ?_
  rw [Bool.not_eq_true', Bool.eq_false_iff]
  intro hp
  exact Bool.false_ne_true (h.symm.trans (any_eq_true.mpr ⟨a, ha, hp⟩))

theorem Updated.remNs (h : Updated cmd q d e) {f : Found}
    (hf : strlower (textIn f.content 256) ∈ listedNs q "rem") : Updated cmd q d (e.remNs f) := by
  unfold Edit.remNs
  dsimp only
  cases hany : e.domain.ns.list.any fun n => eqCI n.text (strlower (textIn f.content 256)) with
  | true =>
    rw [Bool.or_true]
    refine h.withNs _ (fun n hn => .inl (mem_of_mem_filter hn)) (fun n hn hrem => ?_)
      (.inr (.inl (ne_nil_of_mem hf)))
    refine mem_filter.mpr ⟨hn, ?_⟩
    rw [Bool.not_eq_true', Bool.eq_false_iff]
    exact fun heq => hrem ⟨_, hf, heq⟩
  | false =>
    rwa [Bool.or_false, Slots.removeIf_eq_self hany]

theorem Updated.addDs (h : Updated cmd q d e) (ht : TouchesDelegation cmd q) (x : Ds) :
    Updated cmd q d (e.addDs x) := by
  unfold Edit.addDs
  split
  · exact h.withDs _ ht
  · exact h

theorem Updated.remDs (h : Updated cmd q d e) (ht : TouchesDelegation cmd q) (x : Ds) :
    Updated cmd q d (e.remDs x) := by
  unfold Edit.remDs
  dsimp only
  cases hany : e.domain.ds.list.any fun y =>
      y.keytag == x.keytag && y.alg == x.alg && y.digtype == x.digtype with
  | true =>
    rw [Bool.or_true]
    exact h.withDs _ ht
  | false =>
    rwa [Bool.or_false, Slots.removeIf_eq_self hany]

/-- A stage that a list drives. -/
theorem Updated.foldl {α : Type} {f : Edit → α → Edit} {l : List α}
    (hf : ∀ {e a}, a ∈ l → Updated cmd q d e → Updated cmd q d (f e a))
    (h : Updated cmd q d e) : Updated cmd q d (l.foldl f e) := by
  induction l generalizing e with
  | nil => exact h
  | cons a l ih =>
    exact ih (fun ha => hf (mem_cons_of_mem _ ha)) (hf mem_cons_self h)

/-- The elements of an `<add>` or `<rem>` are its listed name servers. -/
theorem mem_listedNs {part : String} {sec ns f : Found} (hsec : child q (lit part) = some sec)
    (hns : child sec.content (lit "domain:ns") = some ns)
    (hf : f ∈ children ns.content (lit "domain:hostObj")) :
    strlower (textIn f.content 256) ∈ listedNs q part := by
  rw [listedNs, hsec, bind_some, hns]
  exact mem_map_of_mem hf

theorem Updated.updateRem (h : Updated cmd q d e) : Updated cmd q d (e.updateRem q) := by
  unfold Edit.updateRem
  split
  · exact h
  · rename_i rem hrem
    split
    · rename_i ns hns
      exact (h.foldl fun hf h => h.remNs (mem_listedNs hrem hns hf)).other _ _ _
    · exact h.other _ _ _

theorem Updated.updateDs (h : Updated cmd q d e) : Updated cmd q d (e.updateDs cmd) := by
  unfold Edit.updateDs
  split
  · exact h
  · rename_i sec hsec
    have ht : TouchesDelegation cmd q := .inr (.inr (.inl (isSome_of_eq_some hsec)))
    split
    · exact h.withDs _ ht
    · dsimp only
      split
      · refine .foldl (fun _ h => h.remDs ht _) ?_
        split
        · exact h.foldl fun _ h => h.addDs ht _
        · exact h
      · split
        · exact h.foldl fun _ h => h.addDs ht _
        · exact h

theorem Updated.restore (h : Updated cmd q d e) : Updated cmd q d (e.restore cmd) := by
  unfold Edit.restore
  split
  · rename_i hreq
    rw [Bool.and_eq_true, beq_iff_eq] at hreq
    obtain ⟨hreq, hred⟩ := hreq
    refine ⟨h.clid, h.exdate, h.transferReid, h.transferRedate, h.transferStatus, nofun, .inr ?_,
      h.added, h.kept, fun _ => .inr (.inr (.inr hreq))⟩
    rcases h.rgp with hsame | ⟨-, hnone, -⟩
    · exact ⟨hsame ▸ hred, rfl, rfl⟩
    · rw [hnone] at hred
      cases hred
  · exact h

/-- A restore that is asked for ends a redemption. -/
theorem Edit.rgpState_restore (hreq : restoreRequested cmd = true) :
    (e.restore cmd).domain.rgpState ≠ .redemption := by
  unfold Edit.restore
  rw [hreq, Bool.true_and]
  split
  · exact nofun
  · rename_i hne
    rwa [beq_iff_eq] at hne

theorem wp_addNsLoop {fs : List Found} {Q : Edit → Db → Prop}
    (hfs : ∀ f ∈ fs, strlower (textIn f.content 256) ∈ listedNs q "add") (he : Updated cmd q d e)
    (h : ∀ e', Updated cmd q d e' → (e.domain.ns.list ≠ [] ∨
      (∃ f ∈ fs, Known s.keys (strlower (textIn f.content 256))) → e'.domain.ns.list ≠ []) →
      Q e' s) :
    Ends long (addNsLoop fs e) Q s := by
  induction fs generalizing e with
  | nil => exact h e he fun hsome => hsome.resolve_right nofun
  | cons f fs ih =>
    have hf := hfs f mem_cons_self
    have hrest : ∀ g ∈ fs, strlower (textIn g.content 256) ∈ listedNs q "add" :=
      fun g hg => hfs g (mem_cons_of_mem _ hg)
    rw [addNsLoop]
    split
    · rename_i hroom
      rw [wp_bind, wp_get]
      split
      · refine ih hrest (he.withNs _ (fun n hn => ?_) (fun n hn _ => ?_) (.inl (ne_nil_of_mem hf)))
          fun e' he' hsome => h e' he' fun _ => hsome (.inl ?_)
        · rw [Slots.list_push hroom] at hn
          rcases mem_append.mp hn with hn | hn
          · exact .inl hn
          · obtain rfl := mem_singleton.mp hn
            refine .inr ?_
            rwa [text_copy_textIn]
        · rw [Slots.list_push hroom]
          exact mem_append_left _ hn
        · rw [Slots.list_push hroom]
          exact append_ne_nil_of_right_ne_nil _ (cons_ne_nil _ _)
      · rename_i hskip
        refine ih hrest he fun e' he' hsome => h e' he' fun hor => hsome ?_
        rcases hor with hne | ⟨g, hg, hknown⟩
        · exact .inl hne
        · rcases mem_cons.mp hg with rfl | hg
          · -- a stored host is passed over if it is listed already
            refine .inl fun hnil => hskip ?_
            rwa [hnil, any_nil, Bool.not_false, Bool.and_true]
          · exact .inr ⟨g, hg, hknown⟩
    · rename_i hfull
      refine h e he fun _ hnil => hfull ?_
      rw [hnil]
      decide

theorem wp_updateAdd {Q : Edit → Db → Prop} (he : Updated cmd q d e)
    (h : ∀ e', Updated cmd q d e' → ((∃ x ∈ listedNs q "add", Known s.keys x) →
      e'.domain.ns.list ≠ []) → Q e' s) : Ends long (updateAdd q e) Q s := by
  unfold updateAdd
  split
  · rename_i hadd
    refine h e he fun ⟨x, hx, _⟩ => ?_
    rw [listedNs, hadd] at hx
    cases hx
  · rename_i add hadd
    split
    · rename_i ns hns
      rw [wp_bind]
      refine wp_addNsLoop (fun f hf => mem_listedNs hadd hns hf) he
        fun e' he' hsome => h _ (he'.other _ _ _) fun ⟨x, hx, hknown⟩ => hsome (.inr ?_)
      rw [listedNs, hadd, bind_some, hns] at hx
      obtain ⟨f, hf, rfl⟩ := mem_map.mp hx
      exact ⟨f, hf, hknown⟩
    · rename_i hns
      refine h _ (he.other _ _ _) fun ⟨x, hx, _⟩ => ?_
      rw [listedNs, hadd, bind_some, hns] at hx
      cases hx

theorem wp_updateChg {Q : Edit → Db → Prop} {d' : Domain} (he : Updated cmd q d e)
    (he' : Updated cmd q d' e) (h : ∀ e', Updated cmd q d e' → Updated cmd q d' e' → Q e' s) :
    Ends long (updateChg q e) Q s := by
  unfold updateChg
  split
  · exact h e he he'
  · dsimp only
    split
    · rw [wp_bind]
      exact wp_eppGenAuthinfo fun authinfo => h _ (he.other _ _ _) (he'.other _ _ _)
    · exact h _ (he.other _ _ _) (he'.other _ _ _)

end Stages

/-! ## Update, delete and renew -/

theorem does_eppDomainUpdate :
    Handles long sess (.object .update .domain cmd q) (eppDomainUpdate sess cmd q) s := by
  refine wp_withName refusable_does fun t ht =>
    wp_withSponsored refusable_does fun d hread hsp => wp_unlessStatus refusable_does ?_
  rw [wp_bind]
  refine wp_updateAdd (.refl cmd q d) fun e₁ he₁ hsome => ?_
  rw [wp_bind]
  refine wp_updateChg he₁.updateRem he₁.restart.updateRem fun e he hlater => ?_
  have hupd : Updated cmd q d ((e.updateDs cmd).restore cmd) := he.updateDs.restore
  have hgains : Gains s.keys q d → ((e.updateDs cmd).restore cmd).domain.ns.list ≠ [] := by
    rintro ⟨hnone, hknown, hrem⟩
    obtain ⟨n, hn⟩ := exists_mem_of_ne_nil _ (hsome hknown)
    refine ne_nil_of_mem (hlater.updateDs.restore.kept n hn ?_)
    rintro ⟨y, hy, heq⟩
    have hadded : n.text ∈ listedNs q "add" := (he₁.added n hn).resolve_left (by simp [hnone])
    exact absurd heq (by simp [hrem _ hadded y hy])
  have hrestore : restoreRequested cmd = true →
      ((e.updateDs cmd).restore cmd).domain.rgpState ≠ .redemption := Edit.rgpState_restore
  generalize (e.updateDs cmd).restore cmd = e' at hupd hgains hrestore ⊢
  refine wp_storeThen refusable_does fun raw henc hsent => ?_
  split
  · rename_i hch
    rw [wp_bind]
    refine wp_eppPublishDomain fun out hout hpub => wp_completed fun _ => ?_
    exact .of (.domainUpdate ht hread hsp hupd hgains hrestore henc
      ⟨hsent, fun _ => ⟨out, hout, hpub, rfl⟩, fun hno => absurd hch hno⟩) (le_refl _)
  · rename_i hch
    refine wp_completed fun _ => .of ?_ (le_refl _)
    exact .domainUpdate ht hread hsp hupd hgains hrestore henc
      ⟨hsent, fun hc => absurd hc hch, fun _ => rfl⟩

theorem does_eppDomainDelete :
    Handles long sess (.object .delete .domain cmd q) (eppDomainDelete sess q) s := by
  refine wp_withName refusable_does fun t ht =>
    wp_withSponsored refusable_does fun d hread hsp => wp_unlessStatus refusable_does ?_
  split
  · exact wp_plain fun _ => .refl
  · rename_i hpending
    rw [Bool.not_eq_true] at hpending
    rw [wp_bind, wp_time]
    intro now hnow
    split
    · rw [wp_bind]
      refine wp_eppRetractDomain fun out hout hret => ?_
      have hfits : fitsCommand (Cmd.del (domainKey (strlower t))).args := by
        obtain ⟨hlen, -, -⟩ := length_requiredText (by decide) ht
        refine fitsCommand_del ?_
        rw [domainKey, length_append, length_strlower]
        have hpre : (lit "epp:domain:").length = 11 := by decide
        omega
      rw [wp_bind, wp_del]
      refine ⟨fun _ => wp_completed fun _ => .of ?_ hnow, fun hf => absurd hfits hf⟩
      exact .domainPurge ht hread hsp hpending ⟨out, hout, hret, rfl⟩
    · rw [wp_bind]
      refine wp_eppCfgSecs ?_
      refine wp_storeThen (fun _ _ _ => .of .none hnow) fun raw henc hsent => ?_
      rw [wp_bind]
      refine wp_eppRetractDomain fun out hout hret => wp_plain fun _ => ?_
      exact .of (.domainRedeem ht hread hsp hpending henc hsent ⟨out, hout, hret, rfl⟩) hnow

theorem does_eppDomainRenew :
    Handles long sess (.object .renew .domain cmd q) (eppDomainRenew sess cmd q) s := by
  refine wp_withName refusable_does fun t ht =>
    wp_withSponsored refusable_does fun d hread hsp =>
      wp_unlessStatus refusable_does <| wp_unlessStatus refusable_does <|
        wp_withName refusable_does fun curexp _ => ?_
  split
  · refine wp_storeThen refusable_does fun raw henc _ => ?_
    rw [wp_bind]
    refine wp_withFee fun extra => wp_completed fun _ => .of ?_ (le_refl _)
    exact .domainRenew ht hread hsp henc
  · exact wp_plain fun _ => .refl

/-! ## Transfers -/

section Transfers

variable {d : Domain} {t : Db}

/-- The end of a transfer command: the domain is stored, and the poll message is quiet. -/
theorem does_transferEnd {gaining : Bool} {n op : Text} {d' : Domain} (hkeys : t.keys = s.keys)
    (hclock : s.clock ≤ t.clock) (hname : requiredText q (lit "domain:name") 256 = some n)
    (hread : readDomain s.keys (strlower n) = some d)
    (h : Transfers sess s.clock t.clock q d op d') :
    Ends long (transferEnd sess gaining (strlower n) d')
      (fun _ u => Does long sess (.transfer op q) s u) t := by
  obtain ⟨keys, clock, roid⟩ := t
  subst hkeys
  refine wp_storeThen (fun _ _ _ => .of .none hclock) fun raw henc _ => ?_
  rw [wp_bind]
  refine wp_eppPollEnqueue fun u hu => wp_completed fun _ => ?_
  exact (Does.of (.transfer hname hread h henc) hclock).quiet hu

theorem does_transferRequest {n : Text} (hname : requiredText q (lit "domain:name") 256 = some n)
    (hread : readDomain s.keys (strlower n) = some d) :
    Handles long sess (.transfer (lit "request") q) (transferRequest sess cmd q (strlower n) d) s :=
  by
  unfold transferRequest
  refine wp_ite (fun _ => wp_plain fun _ => .refl) fun hpending => ?_
  refine wp_ite (fun _ => wp_plain fun _ => .refl) fun hallowed => ?_
  refine wp_ite (fun _ => wp_plain fun _ => .refl) fun _ => ?_
  split
  · exact .refl
  · rename_i auth hauth
    split
    · exact .refl
    · rename_i pw hpw
      refine wp_ite (fun haccepts => ?_) fun _ => wp_plain fun _ => .refl
      have hpresented : presented q = some pw := by
        rwa [presented, hauth]
      rw [wp_bind]
      refine wp_now32 fun now hnow => ?_
      refine wp_storeThen (fun _ _ _ => .of .none hnow) fun raw henc _ => ?_
      rw [wp_bind]
      refine wp_eppPollEnqueue fun u hu => ?_
      rw [wp_bind]
      refine wp_withFee fun extra => ?_
      refine (Does.of (.transfer hname hread ?_ henc) hnow).quiet hu
      exact .request (Bool.eq_false_iff.mpr hpending) (Bool.eq_false_iff.mpr hallowed) hpresented
        haccepts hnow (le_refl _)

theorem does_transferSettle {n op : Text}
    (hop : op = lit "cancel" ∨ op = lit "reject" ∨ op = lit "approve")
    (hname : requiredText q (lit "domain:name") 256 = some n)
    (hread : readDomain s.keys (strlower n) = some d) :
    Handles long sess (.transfer op q) (transferSettle sess op (strlower n) d) s := by
  unfold transferSettle
  refine wp_ite (fun _ => wp_plain fun _ => .refl) fun hp => ?_
  have hpending : d.pending = true := by
    cases hd : d.pending with
    | true => rfl
    | false => exact absurd (congrArg (!·) hd) hp
  refine wp_ite (fun hcancel => ?_) fun hcancel => ?_
  · subst hcancel
    refine wp_ite (fun hgaining => ?_) fun _ => wp_plain fun _ => .refl
    exact does_transferEnd rfl (le_refl _) hname hread (.cancel hpending (beq_iff_eq.mp hgaining))
  · refine wp_ite (fun hlosing => ?_) fun _ => wp_plain fun _ => .refl
    rw [Bool.and_eq_true, Bool.not_eq_true', isEmpty_eq_false_iff, beq_iff_eq] at hlosing
    obtain ⟨hsome, hclid⟩ := hlosing
    refine wp_ite (fun hreject => ?_) fun hreject => ?_
    · subst hreject
      exact does_transferEnd rfl (le_refl _) hname hread (.reject hpending hclid hsome)
    · obtain rfl : op = lit "approve" := (hop.resolve_left hcancel).resolve_left hreject
      rw [wp_bind]
      refine wp_now32 fun now hnow => ?_
      rw [wp_bind]
      refine wp_eppCfgSecs ?_
      exact does_transferEnd rfl hnow hname hread (.approve hpending hclid hsome)

end Transfers

end SimpleDns.Epp
