import GateLink.Lib.Machine
import GateLink.Lib.Trace
import GateLink.Lib.Scale
import GateLink.Theorems.Safety
import GateLink.Theorems.Stop
import GateLink.Theorems.Causes
import GateLink.Theorems.Impulse
import GateLink.Theorems.Pause
import GateLink.Theorems.Wind
import GateLink.Theorems.Overlap
import GateLink.Theorems.Schedule
import GateLink.Theorems.Bypass
import GateLink.Theorems.Deadline
import GateLink.Firmware
import GateLink.Lemmas.Firmware
import GateLink.Theorems.Announced
import GateLink.Theorems.Persisted
import GateLink.Lib.Queue
import GateLink.Lemmas.Packet
import GateLink.Mqtt.Steps
import GateLink.Theorems.Outgoing
import GateLink.Theorems.Subscriptions
import GateLink.Theorems.Stream
import GateLink.Theorems.Light
import GateLink.Theorems.Debounce
import GateLink.Theorems.Provisioning
import GateLink.Theorems.AtRest
import GateLink.Theorems.EndReached
import GateLink.Lib.Estimate
import GateLink.Lemmas.Bench
import GateLink.Theorems.Drift
import GateLink.Theorems.Refusal
import GateLink.Mqtt.Task
import GateLink.Theorems.Inbound
import GateLink.Lemmas.Reader
import GateLink.Mqtt.Answer
import GateLink.Theorems.ReadBack
import GateLink.Theorems.KeepAlive
import GateLink.Device
import GateLink.Lemmas.Device
import GateLink.Theorems.Mirror
import GateLink.Theorems.Commands
import GateLink.Theorems.Loss
import GateLink.Theorems.Pins
import GateLink.Life
import GateLink.Theorems.Life
