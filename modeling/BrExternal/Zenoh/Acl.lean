import BrExternal.Zenoh.KeyExpr

/-!
# Access control of the robot router

The `access_control` block of `zenohd.json5`: default allow with three deny rules for messages
that come in from the LAN. `zenohd` drops a message when a deny rule of its interface lists its
type and one of the rule's expressions includes the whole expression of the message. The comments
ask for more: hardware keys are read only from the LAN, nobody there poses as an RPC server, and
Wi-Fi is not changed over Wi-Fi. An expression that is wider than the rule passes
(`hexmeow_put_reaches_hw`), and the rules protect their keys exactly from the expressions that
spell out the chunks the rule names (`protects_iff`).
-/

namespace BrExternal.Zenoh

/-! ## The configuration -/

/-- The message types of the access control. -/
inductive Message where
  | put
  | delete
  | declareSubscriber
  | query
  | declareQueryable
  | reply
  | livelinessToken
  | declareLivelinessSubscriber
  | livelinessQuery
  deriving DecidableEq, Repr

inductive Flow where
  | ingress
  | egress
  deriving DecidableEq, Repr

inductive Permission where
  | allow
  | deny
  deriving DecidableEq, Repr

structure Rule where
  id : String
  keyExprs : List String
  messages : List Message
  flows : List Flow
  permission : Permission
  deriving DecidableEq, Repr

structure Subject where
  id : String
  interfaces : List String
  deriving DecidableEq, Repr

structure Policy where
  id : String
  rules : List String
  subjects : List String
  deriving DecidableEq, Repr

structure AccessControl where
  enabled : Bool
  defaultPermission : Permission
  rules : List Rule
  subjects : List Subject
  policies : List Policy
  deriving DecidableEq, Repr

def lanHwReadonly : Rule where
  id := "lan-hw-readonly"
  keyExprs := ["hexmeow/*/hw/**"]
  messages := [.put, .delete, .livelinessToken]
  flows := [.ingress]
  permission := .deny

def lanNoQueryable : Rule where
  id := "lan-no-queryable"
  keyExprs := ["hexmeow/**", "bench/**"]
  messages := [.declareQueryable]
  flows := [.ingress]
  permission := .deny

def wlanWifiReadonly : Rule where
  id := "wlan-wifi-readonly"
  keyExprs := ["hexmeow/*/rpc/wifi/**"]
  messages := [.query]
  flows := [.ingress]
  permission := .deny

def accessControl : AccessControl where
  enabled := true
  defaultPermission := .allow
  rules := [lanHwReadonly, lanNoQueryable, wlanWifiReadonly]
  subjects := [⟨"lan", ["end0", "eth0", "wlan0"]⟩, ⟨"wlan", ["wlan0"]⟩]
  policies := [⟨"p-lan", ["lan-hw-readonly", "lan-no-queryable"], ["lan"]⟩,
    ⟨"p-wlan-wifi", ["wlan-wifi-readonly"], ["wlan"]⟩]

/-! ## Decisions of `zenohd` -/

namespace AccessControl

variable (ac : AccessControl)

/-- The policy names a subject with the interface. -/
def attached (iface : String) (p : Policy) : Bool :=
  ac.subjects.any fun s => p.subjects.contains s.id && s.interfaces.contains iface

/-- The deny rules for incoming messages of a type on an interface. -/
def denyRules (iface : String) (msg : Message) : List Rule :=
  ac.rules.filter fun r => r.permission == .deny && r.flows.contains .ingress &&
    r.messages.contains msg &&
    ac.policies.any fun p => ac.attached iface p && p.rules.contains r.id

def denyExprs (iface : String) (msg : Message) : List KeyExpr :=
  (ac.denyRules iface msg).flatMap fun r => r.keyExprs.filterMap KeyExpr.parse

/-- The message is dropped: a deny rule includes its expression, or the default is to deny. -/
def Denied (iface : String) (msg : Message) (k : KeyExpr) : Prop :=
  ac.enabled = true ∧
    ((∃ g ∈ ac.denyExprs iface msg, k.keys ⊆ g.keys) ∨ ac.defaultPermission = .deny)

end AccessControl

/-! ## What the comments protect -/

def literal (s : String) (h : s.toList ≠ [] ∧ ∀ c ∈ s.toList, c ∉ reserved) : ChunkExpr :=
  ⟨s.toList.pmap (fun c hc => .one ⟨c, hc⟩) h.2, mt List.pmap_eq_nil_iff.1 h.1⟩

def hexmeow : ChunkExpr := literal "hexmeow" (by simp [reserved])

/-- `hexmeow/*/hw/**` -/
def hardware : Subtree where
  heads := [hexmeow, .star, literal "hw" (by simp [reserved])]
  ne := by decide
  plain := by decide
  named := by decide

/-- `hexmeow/**` -/
def robot : Subtree where
  heads := [hexmeow]
  ne := by decide
  plain := by decide
  named := by decide

/-- `bench/**` -/
def bench : Subtree where
  heads := [literal "bench" (by simp [reserved])]
  ne := by decide
  plain := by decide
  named := by decide

/-- `hexmeow/*/rpc/wifi/**` -/
def wifiRpc : Subtree where
  heads := [hexmeow, .star, literal "rpc" (by simp [reserved]), literal "wifi" (by simp [reserved])]
  ne := by decide
  plain := by decide
  named := by decide

def lan : List String := ["end0", "eth0", "wlan0"]

/-- The keys that messages of a type must not reach from an interface. -/
def protectedFrom (iface : String) : Message → List Subtree
  | .put | .delete | .livelinessToken => if iface ∈ lan then [hardware] else []
  | .declareQueryable => if iface ∈ lan then [robot, bench] else []
  | .query => if iface = "wlan0" then [wifiRpc] else []
  | _ => []

/-- Messages on the expression are dropped exactly when they could reach a protected key. -/
def Protects (ac : AccessControl) (iface : String) (msg : Message) (k : KeyExpr) : Prop :=
  ac.Denied iface msg k ↔ ∃ t ∈ protectedFrom iface msg, (k.keys ∩ t.expr.keys).Nonempty

/-! ## Which messages are dropped -/

theorem attached_lan (iface : String) :
    accessControl.attached iface ⟨"p-lan", ["lan-hw-readonly", "lan-no-queryable"], ["lan"]⟩ =
      decide (iface ∈ lan) := by
  simp [AccessControl.attached, accessControl, lan]

theorem attached_wlan (iface : String) :
    accessControl.attached iface ⟨"p-wlan-wifi", ["wlan-wifi-readonly"], ["wlan"]⟩ =
      decide (iface = "wlan0") := by
  simp [AccessControl.attached, accessControl]

theorem policies_any (iface : String) (r : Rule) :
    (accessControl.policies.any fun p =>
      accessControl.attached iface p && p.rules.contains r.id) =
      (decide (iface ∈ lan) && ["lan-hw-readonly", "lan-no-queryable"].contains r.id ||
        decide (iface = "wlan0") && ["wlan-wifi-readonly"].contains r.id) := by
  rw [← attached_lan, ← attached_wlan]
  simp [accessControl]

/-- The rules deny by the expressions of the subtrees they are written for. -/
theorem denyExprs_eq (iface : String) (msg : Message) :
    accessControl.denyExprs iface msg = (protectedFrom iface msg).map Subtree.expr := by
  by_cases hwlan : iface = "wlan0"
  · subst hwlan
    cases msg <;> decide
  · unfold AccessControl.denyExprs AccessControl.denyRules protectedFrom
    simp only [policies_any]
    by_cases hlan : iface ∈ lan
    · simp only [hlan, hwlan, decide_true, decide_false, if_true, if_false]
      cases msg <;> decide
    · simp only [hlan, hwlan, decide_false, if_false]
      cases msg <;> decide

theorem denied_iff (iface : String) (msg : Message) (k : KeyExpr) :
    accessControl.Denied iface msg k ↔ ∃ t ∈ protectedFrom iface msg, k.spells t = true := by
  have hallow : accessControl.defaultPermission ≠ .deny := by decide
  unfold AccessControl.Denied
  rw [denyExprs_eq]
  constructor
  · rintro ⟨-, ⟨g, hg, hk⟩ | hdefault⟩
    · obtain ⟨t, ht, rfl⟩ := List.mem_map.1 hg
      exact ⟨t, ht, (t.keys_subset_iff k).1 hk⟩
    · exact absurd hdefault hallow
  · rintro ⟨t, ht, hk⟩
    exact ⟨rfl, .inl ⟨t.expr, List.mem_map_of_mem ht, (t.keys_subset_iff k).2 hk⟩⟩

instance (iface : String) (msg : Message) (k : KeyExpr) :
    Decidable (accessControl.Denied iface msg k) :=
  decidable_of_iff _ (denied_iff iface msg k).symm

theorem meets_of_spells {k : KeyExpr} {t : Subtree} (h : k.spells t = true) :
    k.meets t.expr = true := by
  obtain ⟨key, hkey⟩ := k.keys_nonempty
  exact (k.meets_iff t.expr).2 ⟨key, hkey, (t.keys_subset_iff k).2 h hkey⟩

/-- **The rules protect their keys from an expression that reaches none of them, and from one that
spells out the chunks of the rule.** -/
theorem protects_iff (iface : String) (msg : Message) (k : KeyExpr) :
    Protects accessControl iface msg k ↔
      (∀ t ∈ protectedFrom iface msg, k.meets t.expr = false) ∨
        ∃ t ∈ protectedFrom iface msg, k.spells t = true := by
  unfold Protects
  simp only [denied_iff, ← KeyExpr.meets_iff]
  constructor
  · intro h
    by_cases hspells : ∃ t ∈ protectedFrom iface msg, k.spells t = true
    · exact .inr hspells
    · refine .inl fun t ht => Bool.eq_false_iff.2 fun hmeets => hspells (h.2 ⟨t, ht, hmeets⟩)
  · rintro (hmiss | hspells)
    · constructor
      · rintro ⟨t, ht, hk⟩
        exact ⟨t, ht, meets_of_spells hk⟩
      · rintro ⟨t, ht, hk⟩
        exact absurd hk (Bool.eq_false_iff.1 (hmiss t ht))
    · refine ⟨fun _ => ?_, fun _ => hspells⟩
      obtain ⟨t, ht, hk⟩ := hspells
      exact ⟨t, ht, meets_of_spells hk⟩

/-- A `put` on `hexmeow/**` over Wi-Fi reaches the hardware keys and passes. -/
theorem hexmeow_put_reaches_hw :
    ∃ k, KeyExpr.parse "hexmeow/**" = some k ∧ (k.keys ∩ hardware.expr.keys).Nonempty ∧
      ¬ accessControl.Denied "wlan0" .put k ∧ ¬ Protects accessControl "wlan0" .put k := by
  have hparse : KeyExpr.parse "hexmeow/**" = some robot.expr := by decide
  have hmeets : (robot.expr.keys ∩ hardware.expr.keys).Nonempty :=
    (KeyExpr.meets_iff _ _).1 (by decide)
  have hpass : ¬ accessControl.Denied "wlan0" .put robot.expr := by decide
  exact ⟨robot.expr, hparse, hmeets, hpass, fun h =>
    hpass (h.2 ⟨hardware, by decide, hmeets⟩)⟩

end BrExternal.Zenoh
