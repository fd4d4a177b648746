import UsbProxy.Hid.RoundTrip
import UsbProxy.Protocol.Canonical
import UsbProxy.Mixer.Ledger
import UsbProxy.Server.UpxOrder
import UsbProxy.Server.Capability
import UsbProxy.Server.Lease
import UsbProxy.Server.Accounts
import UsbProxy.Server.Agreement
import UsbProxy.Server.Answers
import UsbProxy.Server.ReleaseAll
import UsbProxy.Proxy.Escapes
import UsbProxy.Replay.Capture
import UsbProxy.Hid.Accepted
import UsbProxy.Server.UpxPeers
import UsbProxy.Server.SessionMarks
import UsbProxy.Mixer.Shape
import UsbProxy.Mixer.Cadence
import UsbProxy.Mixer.Delivery
import UsbProxy.Mixer.Intact
import UsbProxy.Mixer.Standalone
import UsbProxy.Mixer.Telemetry
import UsbProxy.Mixer.Traffic
import UsbProxy.Server.Admission
import UsbProxy.Controller.Agreement
import UsbProxy.Server.Running
import UsbProxy.Server.Rejection
import UsbProxy.Server.AtMostOnce
import UsbProxy.Replay.Enumeration
import UsbProxy.Replay.Reports
import UsbProxy.Proxy.Forwarding
import UsbProxy.Proxy.Survival
import UsbProxy.Proxy.Recording
import UsbProxy.Server.Pairing
