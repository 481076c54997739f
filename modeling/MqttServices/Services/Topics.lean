import Mathlib.Data.List.Infix
import MqttServices.Common.Payload
import MqttServices.Lib.Topic

/-!
# Topics of a messaging manager

* `SubscribeRequestTopic`, `SubscribeMessageTopic`, `SubscribeStringTopic`, `GetResponseTopic`: the
  topics under an application key, by plain concatenation.
* `marked`: the test for the response marker, which looks anywhere in a topic.
* **`marked_base_iff`**: a base topic carries the marker just when the key does.
* `literal_base`, `literal_response`: keys and names without wildcards give filters without wildcards.
-/

namespace MqttServices

def exchangeTopicPrefix (k : Str) : Str := k ++ "_".toList

def resonseTopicSuffix : Str := "__Respnse".toList

/-- `SubscribeRequestTopic` under the key `k`. -/
def SubscribeRequestTopic (k : Str) : Str := exchangeTopicPrefix k ++ "subscribe__Request".toList

/-- `SubscribeMessageTopic` under the key `k`. -/
def SubscribeMessageTopic (k : Str) : Str := exchangeTopicPrefix k ++ "subscribe__Message".toList

/-- `SubscribeStringTopic` under the key `k`. -/
def SubscribeStringTopic (k : Str) : Str := exchangeTopicPrefix k ++ "subscribe__String".toList

/-- `GetResponseTopic` under the key `k`. -/
def GetResponseTopic (k : Str) (exchangeName : Option Str) : Str :=
  exchangeTopicPrefix k ++ orEmpty exchangeName ++ resonseTopicSuffix

/-- The topics subscribed on every connection, in order. -/
def baseTopics (k : Str) : List Str := [SubscribeRequestTopic k, SubscribeMessageTopic k, SubscribeStringTopic k]

/-- `Topic.Contains(resonseTopicSuffix)`. -/
def marked (topic : Str) : Prop := resonseTopicSuffix <:+: topic

instance : DecidablePred marked := fun t => inferInstanceAs (Decidable (resonseTopicSuffix <:+: t))

/-! ## The marker -/

theorem marked_response (k : Str) (x : Option Str) : marked (GetResponseTopic k x) :=
  (List.suffix_append _ _).isInfix

/-- A text that no end of the marker begins and that does not contain it carries no marker over from
what stands before it. -/
theorem marked_append_iff {t : Str} (ht : ¬ marked t) (hcut : ∀ e ∈ resonseTopicSuffix.tails, e ≠ [] → ¬ e <+: t)
    (s : Str) : marked (s ++ t) ↔ marked s := by
  constructor
  · intro h
    rcases List.infix_append_iff_ne_nil.mp h with h | h | ⟨a, e, -, he, hae, -, hpre⟩
    · exact h
    · exact absurd h ht
    · exact absurd hpre (hcut e ((List.mem_tails _ _).mpr ⟨a, hae.symm⟩) he)
  · exact fun h => List.infix_append_of_infix_left h

/-- **A base topic carries the response marker just when the key does.** -/
theorem marked_base_iff {k t : Str} (ht : t ∈ baseTopics k) : marked t ↔ marked k := by
  simp only [baseTopics, List.mem_cons, List.not_mem_nil, or_false] at ht
  rcases ht with rfl | rfl | rfl
  · rw [SubscribeRequestTopic, exchangeTopicPrefix, List.append_assoc]
    exact marked_append_iff (by decide) (by decide) k
  · rw [SubscribeMessageTopic, exchangeTopicPrefix, List.append_assoc]
    exact marked_append_iff (by decide) (by decide) k
  · rw [SubscribeStringTopic, exchangeTopicPrefix, List.append_assoc]
    exact marked_append_iff (by decide) (by decide) k

/-! ## Filters without wildcards -/

section Literal

variable {k : Str} (hk : Topic.Literal k)

include hk

theorem literal_base : ∀ t ∈ baseTopics k, Topic.Literal t := by
  have h : ∀ t : Str, Topic.Literal t → Topic.Literal (exchangeTopicPrefix k ++ t) := fun t ht =>
    Topic.literal_append.mpr ⟨Topic.literal_append.mpr ⟨hk, by decide⟩, ht⟩
  intro t ht
  simp only [baseTopics, List.mem_cons, List.not_mem_nil, or_false] at ht
  rcases ht with rfl | rfl | rfl
  · exact h _ (by decide)
  · exact h _ (by decide)
  · exact h _ (by decide)

theorem literal_response {x : Option Str} (hx : Topic.Literal (orEmpty x)) : Topic.Literal (GetResponseTopic k x) :=
  Topic.literal_append.mpr
    ⟨Topic.literal_append.mpr ⟨Topic.literal_append.mpr ⟨hk, by decide⟩, hx⟩, by decide⟩

end Literal

/-! ## Distinct topics -/

theorem SubscribeMessageTopic_ne_request (k : Str) : SubscribeMessageTopic k ≠ SubscribeRequestTopic k := fun h =>
  absurd (List.append_cancel_left h) (by decide)

theorem SubscribeStringTopic_ne_request (k : Str) : SubscribeStringTopic k ≠ SubscribeRequestTopic k := fun h =>
  absurd (List.append_cancel_left h) (by decide)

theorem SubscribeStringTopic_ne_message (k : Str) : SubscribeStringTopic k ≠ SubscribeMessageTopic k := fun h =>
  absurd (List.append_cancel_left h) (by decide)

/-- A response topic ends otherwise than a base topic, of whatever key. -/
theorem GetResponseTopic_notMem_base (k k' : Str) (x : Option Str) : GetResponseTopic k x ∉ baseTopics k' := by
  have hne : ∀ e : Str, ¬ resonseTopicSuffix <:+ e → ¬ e <:+ resonseTopicSuffix →
      GetResponseTopic k x ≠ exchangeTopicPrefix k' ++ e := by
    intro e h₁ h₂ h
    have hsuffix : resonseTopicSuffix <:+ exchangeTopicPrefix k' ++ e := h ▸ List.suffix_append _ _
    exact (List.suffix_or_suffix_of_suffix hsuffix (List.suffix_append _ _)).elim h₁ h₂
  intro h
  simp only [baseTopics, List.mem_cons, List.not_mem_nil, or_false] at h
  rcases h with h | h | h
  · exact hne _ (by decide) (by decide) h
  · exact hne _ (by decide) (by decide) h
  · exact hne _ (by decide) (by decide) h

theorem GetResponseTopic_ne_request (k k' : Str) (x : Option Str) : GetResponseTopic k x ≠ SubscribeRequestTopic k' :=
  fun h => GetResponseTopic_notMem_base k k' x (h ▸ List.mem_cons_self)

end MqttServices
