import Mathlib.Data.Set.Basic
import SeoAgent.Onboarding.Vault

/-!
# Slots of the vault

Two things keep a credential in its place: it is read back from where it was put, and a copy of
it in the record of another slot is not read. The associated data joins the tenant, the site
and the name with bars and escapes none of them, and the id of a record is cut at its first
slash, so both depend on the characters that the ids have.

## Main results

* `roundTrips_iff` — a credential is read back, over any rotation of the keys, if and only if
  its site has no slash.
* `neverReadAt_iff` — a copy is not read in another slot if and only if that slot reads with
  other associated data.
* `stays_in_slot_iff` — the two together.
* `vault_separates_iff` — over ids of given characters, credentials are read back and stay in
  their slots if and only if sites have no slashes and one kind of id at most has bars.
-/

namespace SeoAgent.Vault

open SeoAgent.Verified Lines Onboarding

variable (C : Crypto) (slot other : Slot)

/-- Put, and got after any number of rotations of the keys. -/
def RoundTrips : Prop :=
  ∀ (ring ring' : Keyring) (nonce : Nonce) (records : Records) (value : List Char),
    strip value ≠ [] → ring'.DistinctIds C → Relation.ReflTransGen Rotates ring ring' →
      ∃ ref records', put C ring nonce records slot value = (.ok ref, records') ∧
        get C ring' records' ref.key = .ok value

/-- Put in one slot and copied into the record of another, and never read there. -/
def NeverReadAt : Prop :=
  ∀ (ring ring' : Keyring) (nonce : Nonce) (value : List Char) (ref : SecretRef)
    (record : VaultRecord) (records records' records'' : Records) (version version' : Nat),
    ring'.DistinctIds C → Relation.ReflTransGen Rotates ring ring' →
      put C ring nonce records slot value = (.ok ref, records') →
      records'.current () ref.key = some (record, version) →
      records''.current () (aggregateId other.siteId other.name) =
        some (recordIn other record.payload, version') →
      ∀ text, get C ring' records'' (aggregateId other.siteId other.name) ≠ .ok text

variable {C slot other}

/-! ## Where an id is cut -/

theorem toList_aggregateId (siteId name : List Char) :
    (aggregateId siteId name).toList = siteId ++ '/' :: name := String.toList_ofList

theorem partition_plain {siteId : List Char} (name : List Char) (h : '/' ∉ siteId) :
    partition (aggregateId siteId name) = (siteId, name) := by
  have hall : ∀ c ∈ siteId, decide (c ≠ '/') = true := fun c hc =>
    decide_eq_true fun heq => h (heq ▸ hc)
  unfold partition
  rw [toList_aggregateId, List.takeWhile_append_of_pos hall, List.dropWhile_append_of_pos hall,
    List.takeWhile_cons_of_neg (by decide), List.dropWhile_cons_of_neg (by decide),
    List.append_nil]
  rfl

/-- A site is cut at its first slash, and the rest goes to the name. -/
theorem partition_slash (before after name : List Char) (h : '/' ∉ before) :
    partition (aggregateId (before ++ '/' :: after) name) =
      (before, after ++ '/' :: name) := by
  have hsame : aggregateId (before ++ '/' :: after) name =
      aggregateId before (after ++ '/' :: name) := by
    unfold aggregateId
    rw [List.append_assoc, List.cons_append]
  rw [hsame, partition_plain _ h]

theorem contextOf_eq_iff {tenantId tenantId' siteId siteId' name name' : List Char} :
    contextOf tenantId siteId name = contextOf tenantId' siteId' name' ↔
      tenantId ++ '|' :: (siteId ++ '|' :: name) =
        tenantId' ++ '|' :: (siteId' ++ '|' :: name') := by
  unfold contextOf
  rw [List.append_cancel_left_eq, List.cons_inj_right]

/-- A slot is read with its own associated data if and only if its site has no slash. -/
theorem readContext_eq_iff : slot.readContext = slot.context ↔ '/' ∉ slot.siteId := by
  unfold Slot.readContext Slot.context
  constructor
  · intro hsame hslash
    obtain ⟨before, after, hsite, hfirst⟩ := List.eq_append_cons_of_mem hslash
    rw [hsite, partition_slash before after slot.name hfirst, contextOf_eq_iff,
      List.append_cancel_left_eq, List.cons_inj_right, List.append_assoc,
      List.append_cancel_left_eq, List.cons_append, List.cons.injEq] at hsame
    exact absurd hsame.1 (by decide)
  · intro h
    rw [partition_plain slot.name h]

/-! ## Round trips and copies -/

/-- A ring of one key. -/
def oneKey : Keyring where
  keys := [List.replicate 32 0]
  ne_nil := List.cons_ne_nil _ _
  size := fun _ hkey => List.mem_singleton.mp hkey ▸ List.length_replicate

theorem oneKey_distinctIds (C : Crypto) : oneKey.DistinctIds C := fun _ hkey _ hkey' _ =>
  (List.mem_singleton.mp hkey).trans (List.mem_singleton.mp hkey').symm

def zeroNonce : Nonce := ⟨List.replicate 12 0, List.length_replicate⟩

theorem current_append (records : Records) (id : String) (record : VaultRecord) :
    ∃ version, (records.append () id record).current () id = some (record, version) :=
  ⟨_, Repository.current_append_self records () id record⟩

theorem put_ok {ring : Keyring} {nonce : Nonce} {records records' : Records} {ref : SecretRef}
    {value : List Char} (haccepted : slot.Accepted)
    (h : put C ring nonce records slot value = (.ok ref, records')) :
    ref.key = aggregateId slot.siteId slot.name ∧
      records' = records.append () (aggregateId slot.siteId slot.name)
        (recordIn slot (storedOf C ring nonce slot value)) := by
  by_cases hvalue : strip value = []
  · unfold put at h
    rw [if_pos hvalue] at h
    cases (Prod.mk.inj h).1
  · rw [put_spec haccepted hvalue] at h
    obtain ⟨href, hrecords⟩ := Prod.mk.inj h
    exact ⟨congrArg SecretRef.key (Except.ok.inj href).symm, hrecords.symm⟩

theorem roundTrips_iff (haccepted : slot.Accepted) : RoundTrips C slot ↔ '/' ∉ slot.siteId := by
  rw [← readContext_eq_iff]
  constructor
  · intro htrip
    obtain ⟨ref, records', hput, hget⟩ := htrip oneKey oneKey zeroNonce Repository.empty ['x']
      (by decide) (oneKey_distinctIds C) Relation.ReflTransGen.refl
    obtain ⟨href, rfl⟩ := put_ok haccepted hput
    obtain ⟨version, hcurrent⟩ := current_append Repository.empty
      (aggregateId slot.siteId slot.name) (recordIn slot (storedOf C oneKey zeroNonce slot ['x']))
    rw [href, get_spec (oneKey_distinctIds C) (fun _ hkey => hkey) hcurrent] at hget
    by_contra hne
    rw [if_neg hne] at hget
    cases hget
  · intro hsame ring ring' nonce records value hvalue hids hrotates
    refine ⟨_, _, put_spec haccepted hvalue, ?_⟩
    obtain ⟨version, hcurrent⟩ := current_append records (aggregateId slot.siteId slot.name)
      (recordIn slot (storedOf C ring nonce slot value))
    rw [get_spec hids (rotates_all hrotates) hcurrent, if_pos hsame]

theorem neverReadAt_iff (haccepted : slot.Accepted) :
    NeverReadAt C slot other ↔ other.readContext ≠ slot.context := by
  constructor
  · intro hnever hsame
    obtain ⟨version, hcurrent⟩ := current_append Repository.empty
      (aggregateId slot.siteId slot.name) (recordIn slot (storedOf C oneKey zeroNonce slot ['x']))
    obtain ⟨version', hcopy⟩ := current_append Repository.empty
      (aggregateId other.siteId other.name)
      (recordIn other (storedOf C oneKey zeroNonce slot ['x']))
    have hput : put C oneKey zeroNonce Repository.empty slot ['x'] = _ :=
      put_spec haccepted (by decide)
    refine hnever _ _ _ _ _ _ _ _ _ _ _ (oneKey_distinctIds C) Relation.ReflTransGen.refl hput
      hcurrent hcopy ['x'] ?_
    rw [get_spec (oneKey_distinctIds C) (fun _ hkey => hkey) hcopy, if_pos hsame]
  · intro hne ring ring' nonce value ref record records records' records'' version version'
      hids hrotates hput hcurrent hcopy text
    obtain ⟨href, rfl⟩ := put_ok haccepted hput
    obtain ⟨_, hnewest⟩ := current_append records (aggregateId slot.siteId slot.name)
      (recordIn slot (storedOf C ring nonce slot value))
    rw [href, hnewest] at hcurrent
    obtain rfl := (Prod.mk.inj (Option.some.inj hcurrent)).1
    rw [get_spec hids (rotates_all hrotates) hcopy, if_neg hne]
    intro hok
    cases hok

/-! ## Ids of given characters -/

/-- The characters that ids are made of. -/
structure Alphabets where
  tenant : Set Char
  site : Set Char
  name : Set Char

structure Slot.InAlphabets (slot : Slot) (A : Alphabets) : Prop where
  accepted : slot.Accepted
  tenant : ∀ c ∈ slot.tenantId, c ∈ A.tenant
  site : ∀ c ∈ slot.siteId, c ∈ A.site
  name : ∀ c ∈ slot.name, c ∈ A.name

/-- One kind of id at most has bars. -/
def Alphabets.OneBarred (A : Alphabets) : Prop :=
  ('|' ∉ A.tenant ∧ '|' ∉ A.site) ∨ ('|' ∉ A.tenant ∧ '|' ∉ A.name) ∨
    ('|' ∉ A.site ∧ '|' ∉ A.name)

/-- Two texts that are cut at their first bar. -/
theorem cut_first {before before' after after' : List Char} (h : '|' ∉ before)
    (h' : '|' ∉ before') (hsame : before ++ '|' :: after = before' ++ '|' :: after') :
    before = before' ∧ after = after' := by
  have hcut : ∀ {text : List Char} (rest : List Char), '|' ∉ text →
      (text ++ '|' :: rest).takeWhile (· ≠ '|') = text := fun {text} rest hbar => by
    have hall : ∀ c ∈ text, decide (c ≠ '|') = true := fun c hc =>
      decide_eq_true fun heq => hbar (heq ▸ hc)
    rw [List.takeWhile_append_of_pos hall, List.takeWhile_cons_of_neg (by decide),
      List.append_nil]
  have hbefore : before = before' := by
    rw [← hcut after h, hsame, hcut after' h']
  rw [hbefore, List.append_cancel_left_eq, List.cons_inj_right] at hsame
  exact ⟨hbefore, hsame⟩

/-- Two texts that are cut at their last bar. -/
theorem cut_last {before before' after after' : List Char} (h : '|' ∉ after)
    (h' : '|' ∉ after') (hsame : before ++ '|' :: after = before' ++ '|' :: after') :
    before = before' ∧ after = after' := by
  have hreverse := congrArg List.reverse hsame
  rw [List.reverse_append, List.reverse_append, List.reverse_cons, List.reverse_cons,
    List.append_assoc, List.append_assoc, List.singleton_append, List.singleton_append]
    at hreverse
  obtain ⟨hafter, hbefore⟩ :=
    cut_first (mt List.mem_reverse.mp h) (mt List.mem_reverse.mp h') hreverse
  exact ⟨List.reverse_injective hbefore, List.reverse_injective hafter⟩

/-- Where one kind of id at most has bars, the associated data tells the ids. -/
theorem context_injective {A : Alphabets} (hone : A.OneBarred) (hslot : slot.InAlphabets A)
    (hother : other.InAlphabets A) (hsame : other.context = slot.context) : other = slot := by
  have hplain {ids : Set Char} {id : List Char} (hbar : '|' ∉ ids) (hid : ∀ c ∈ id, c ∈ ids) :
      '|' ∉ id := fun hmem => hbar (hid _ hmem)
  have hjoined := contextOf_eq_iff.mp hsame
  have hids : other.tenantId = slot.tenantId ∧ other.siteId = slot.siteId ∧
      other.name = slot.name := by
    rcases hone with ⟨htenant, hsite⟩ | ⟨htenant, hname⟩ | ⟨hsite, hname⟩
    · obtain ⟨htenants, hrest⟩ :=
        cut_first (hplain htenant hother.tenant) (hplain htenant hslot.tenant) hjoined
      exact ⟨htenants, cut_first (hplain hsite hother.site) (hplain hsite hslot.site) hrest⟩
    · obtain ⟨htenants, hrest⟩ :=
        cut_first (hplain htenant hother.tenant) (hplain htenant hslot.tenant) hjoined
      exact ⟨htenants, cut_last (hplain hname hother.name) (hplain hname hslot.name) hrest⟩
    · rw [← List.cons_append, ← List.append_assoc, ← List.cons_append, ← List.append_assoc]
        at hjoined
      obtain ⟨hrest, hnames⟩ :=
        cut_last (hplain hname hother.name) (hplain hname hslot.name) hjoined
      obtain ⟨htenants, hsites⟩ :=
        cut_last (hplain hsite hother.site) (hplain hsite hslot.site) hrest
      exact ⟨htenants, hsites, hnames⟩
  obtain ⟨tenantId, siteId, name⟩ := other
  obtain ⟨rfl, rfl, rfl⟩ := hids
  rfl

/-- A letter that every kind of id has. -/
structure Alphabets.HasLetter (A : Alphabets) (c : Char) : Prop where
  tenant : c ∈ A.tenant
  site : c ∈ A.site
  name : c ∈ A.name
  plain : c ≠ '/'

/-- A short id of given characters. -/
structure Small (id : List Char) (ids : Set Char) : Prop where
  ne_nil : id ≠ []
  short : id.length ≤ 3
  mem : ∀ c ∈ id, c ∈ ids

/-- A letter, a separator and the letter again. -/
def around (c separator : Char) : List Char := [c, separator, c]

section Clash
variable {A : Alphabets} {c : Char} {slot other : Slot}

theorem small_letter {ids : Set Char} (hc : c ∈ ids) : Small [c] ids where
  ne_nil := List.cons_ne_nil _ _
  short := Nat.succ_le_succ (Nat.zero_le _)
  mem := fun _ hd => List.mem_singleton.mp hd ▸ hc

theorem small_around {ids : Set Char} {separator : Char} (hc : c ∈ ids)
    (hs : separator ∈ ids) : Small (around c separator) ids where
  ne_nil := List.cons_ne_nil _ _
  short := le_refl 3
  mem := by
    intro d hd
    rcases List.mem_cons.mp hd with rfl | hd
    · exact hc
    · rcases List.mem_cons.mp hd with rfl | hd
      · exact hs
      · exact List.mem_singleton.mp hd ▸ hc

theorem inAlphabets_of_small (htenant : Small slot.tenantId A.tenant)
    (hsite : Small slot.siteId A.site) (hname : Small slot.name A.name) :
    slot.InAlphabets A where
  accepted := by
    have hsites := hsite.short
    have hnames := hname.short
    refine ⟨⟨htenant.ne_nil, hsite.ne_nil, hname.ne_nil, by omega⟩, ?_⟩
    rw [← String.length_toList, toList_aggregateId, List.length_append, List.length_cons]
    omega
  tenant := htenant.mem
  site := hsite.mem
  name := hname.mem

/-- Everything that is put over these ids is read back, and in its own slot only. -/
def Alphabets.Separated (C : Crypto) (A : Alphabets) : Prop :=
  ∀ slot : Slot, slot.InAlphabets A → RoundTrips C slot ∧
    ∀ other : Slot, other.InAlphabets A → other ≠ slot → NeverReadAt C slot other

/-- Two slots with one associated data are not kept apart. -/
theorem not_separated (hslot : slot.InAlphabets A) (hother : other.InAlphabets A)
    (hne : other ≠ slot) (hsite : '/' ∉ other.siteId) (hsame : other.context = slot.context) :
    ¬A.Separated C := by
  intro hseparated
  have hnever := (hseparated slot hslot).2 other hother hne
  rw [neverReadAt_iff hslot.accepted, readContext_eq_iff.mpr hsite] at hnever
  exact hnever hsame

theorem separated_slash (hc : A.HasLetter c) (hseparated : A.Separated C) : '/' ∉ A.site := by
  intro hslash
  have hslot : (⟨[c], around c '/', [c]⟩ : Slot).InAlphabets A :=
    inAlphabets_of_small (small_letter hc.tenant) (small_around hc.site hslash)
      (small_letter hc.name)
  have htrip := (roundTrips_iff hslot.accepted).mp (hseparated _ hslot).1
  exact htrip (List.mem_cons_of_mem _ List.mem_cons_self)

/-- A bar can be shifted from one kind of id to another. -/
theorem separated_oneBarred (hc : A.HasLetter c) (hseparated : A.Separated C) :
    A.OneBarred := by
  have hinTenant (hbar : '|' ∈ A.tenant) : (⟨around c '|', [c], [c]⟩ : Slot).InAlphabets A :=
    inAlphabets_of_small (small_around hc.tenant hbar) (small_letter hc.site)
      (small_letter hc.name)
  have hinSite (hbar : '|' ∈ A.site) : (⟨[c], around c '|', [c]⟩ : Slot).InAlphabets A :=
    inAlphabets_of_small (small_letter hc.tenant) (small_around hc.site hbar)
      (small_letter hc.name)
  have hinName (hbar : '|' ∈ A.name) : (⟨[c], [c], around c '|'⟩ : Slot).InAlphabets A :=
    inAlphabets_of_small (small_letter hc.tenant) (small_letter hc.site)
      (small_around hc.name hbar)
  have hletter : '/' ∉ [c] := fun hmem => hc.plain (List.mem_singleton.mp hmem).symm
  have hlonger : around c '|' ≠ [c] := fun heq =>
    List.cons_ne_nil _ _ (List.cons.inj heq).2
  have htenantSite : ¬('|' ∈ A.tenant ∧ '|' ∈ A.site) := fun ⟨htenant, hsite⟩ =>
    not_separated (hinSite hsite) (hinTenant htenant)
      (fun heq => hlonger (congrArg Slot.tenantId heq)) hletter rfl hseparated
  have htenantName : ¬('|' ∈ A.tenant ∧ '|' ∈ A.name) := fun ⟨htenant, hname⟩ =>
    not_separated (hinName hname) (hinTenant htenant)
      (fun heq => hlonger (congrArg Slot.tenantId heq)) hletter rfl hseparated
  have hsiteName : ¬('|' ∈ A.site ∧ '|' ∈ A.name) := fun ⟨hsite, hname⟩ =>
    not_separated (hinSite hsite) (hinName hname)
      (fun heq => hlonger (congrArg Slot.name heq)) hletter rfl hseparated
  unfold Alphabets.OneBarred
  tauto

theorem separated_of_oneBarred (hslash : '/' ∉ A.site) (hone : A.OneBarred) :
    A.Separated C := by
  have hplain : ∀ {slot : Slot}, slot.InAlphabets A → '/' ∉ slot.siteId :=
    fun hin hmem => hslash (hin.site _ hmem)
  intro slot hslot
  refine ⟨(roundTrips_iff hslot.accepted).mpr (hplain hslot), fun other hother hne => ?_⟩
  rw [neverReadAt_iff hslot.accepted, readContext_eq_iff.mpr (hplain hother)]
  exact fun hsame => hne (context_injective hone hslot hother hsame)

end Clash

/-- A credential is read back, and is not read from its copy in the record of another slot, if
and only if its site has no slash and the other slot, cut at the first slash of its id, is
joined to other associated data. Over ids of given characters, that is so of all slots if and
only if sites have no slashes and one kind of id at most has bars. -/
theorem vault_separates_iff (C : Crypto) :
    (∀ slot other : Slot, slot.Accepted →
      (RoundTrips C slot ∧ NeverReadAt C slot other ↔
        '/' ∉ slot.siteId ∧ other.readContext ≠ slot.context)) ∧
    ∀ (A : Alphabets) (c : Char), A.HasLetter c →
      (A.Separated C ↔ '/' ∉ A.site ∧ A.OneBarred) := by
  refine ⟨fun slot other haccepted => ?_, fun A c hc => ⟨fun hseparated => ?_, fun h => ?_⟩⟩
  · rw [roundTrips_iff haccepted, neverReadAt_iff haccepted]
  · exact ⟨separated_slash hc hseparated, separated_oneBarred hc hseparated⟩
  · exact separated_of_oneBarred h.1 h.2

/-! ## A cipher that keeps everything in view -/

section Tagged

/-- The length of the text in ones, a zero, the text and the associated data. -/
def wrap (plaintext associated : List UInt8) : List UInt8 :=
  List.replicate plaintext.length 1 ++ 0 :: (plaintext ++ associated)

def unwrap (text associated : List UInt8) : Option (List UInt8) :=
  let length := (text.takeWhile (· == 1)).length
  let body := text.drop (length + 1)
  if body.drop length = associated then some (body.take length) else none

theorem unwrap_wrap (plaintext associated associated' : List UInt8) :
    unwrap (wrap plaintext associated) associated' =
      if associated = associated' then some plaintext else none := by
  have hones : ∀ b ∈ List.replicate plaintext.length (1 : UInt8), (b == 1) = true :=
    fun b hb => beq_iff_eq.mpr (List.eq_of_mem_replicate hb)
  unfold wrap unwrap
  rw [List.takeWhile_append_of_pos hones, List.takeWhile_cons_of_neg (by decide),
    List.append_nil, List.length_replicate]
  dsimp only
  rw [List.append_cons, List.drop_left' (by rw [List.length_append, List.length_replicate]; rfl),
    List.drop_left, List.take_left]

/-- The bytes of a key as letters. -/
def letters (key : List UInt8) : List Char := key.map fun b => Char.ofNat (b.toNat + 97)

theorem colon_not_mem_letters (key : List UInt8) : ':' ∉ letters key := by
  intro hmem
  obtain ⟨b, -, hb⟩ := List.mem_map.mp hmem
  have hsmall : b.toNat < 256 := b.toNat_lt
  have hvalid : (b.toNat + 97).isValidChar := Or.inl (by omega)
  have hcode : (Char.ofNat (b.toNat + 97)).toNat = b.toNat + 97 := by
    rw [Char.toNat_ofNat, if_pos hvalid]
  rw [hb] at hcode
  change 58 = b.toNat + 97 at hcode
  omega

def tagged : Crypto where
  keyId := letters
  encrypt := fun _ _ plaintext associated => wrap plaintext associated
  decrypt := fun _ _ text associated => unwrap text associated
  keyId_plain := colon_not_mem_letters
  decrypt_same := fun _ _ _ _ => (unwrap_wrap _ _ _).trans (if_pos rfl)
  decrypt_other := fun _ _ _ _ _ hne => (unwrap_wrap _ _ _).trans (if_neg hne.symm)

end Tagged

/-- A Google credential of a site. -/
def googleSlot (tenantId siteId : String) : Slot :=
  ⟨tenantId.toList, siteId.toList, "gsc".toList⟩

theorem vault_separates_google :
    (RoundTrips tagged (googleSlot "acme" "shop") ∧
      NeverReadAt tagged (googleSlot "acme" "shop") (googleSlot "rival" "shop")) ∧
    Alphabets.Separated tagged ⟨{'a'}, {'a', '|'}, {'a', '/'}⟩ := by
  obtain ⟨hslots, halphabets⟩ := vault_separates_iff tagged
  refine ⟨(hslots _ _ (by decide)).mpr (by decide), (halphabets _ 'a' ⟨?_, ?_, ?_, ?_⟩).mpr
    ⟨?_, Or.inr (Or.inl ⟨?_, ?_⟩)⟩⟩
  all_goals decide

/-- A bar is shifted from a tenant to a site, and the copy is read; a slash in a site, and what
was put is not read. -/
theorem separators_in_ids :
    (∀ slot ∈ [googleSlot "a|b" "c", googleSlot "a" "b|c", googleSlot "a" "b/c"],
      slot.Accepted) ∧
    ¬NeverReadAt tagged (googleSlot "a|b" "c") (googleSlot "a" "b|c") ∧
    ¬RoundTrips tagged (googleSlot "a" "b/c") := by
  refine ⟨by decide, ?_, ?_⟩
  · rw [neverReadAt_iff (by decide)]
    decide
  · rw [roundTrips_iff (by decide)]
    decide

end SeoAgent.Vault
