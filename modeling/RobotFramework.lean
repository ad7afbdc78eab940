import RobotFramework.Lib.Reactive
import RobotFramework.Lib.Stream
import RobotFramework.Lib.Double
import RobotFramework.Lib.Numeral
import RobotFramework.Lib.Lines
import RobotFramework.Lib.Shell
import RobotFramework.Lib.Watchdog
import RobotFramework.Lib.RateLimit
import RobotFramework.Lib.BufferedWriter
import RobotFramework.Networks.Decode
import RobotFramework.Networks.Fields
import RobotFramework.Networks.Udp
import RobotFramework.Networks.ClearBuffer
import RobotFramework.Networks.Client
import RobotFramework.Math.WheelMath
import RobotFramework.Math.Capping
import RobotFramework.Math.Mirror
import RobotFramework.Math.Inverse
import RobotFramework.Moteus.Controller
import RobotFramework.Telemetry.Telemetry
import RobotFramework.Telemetry.MotorYaml
import RobotFramework.Arduino.Host
import RobotFramework.Arduino.Connection
import RobotFramework.Arduino.Firmware
import RobotFramework.Arduino.Kicker
import RobotFramework.Logger.Logger
import RobotFramework.Logger.ReadBack
import RobotFramework.Logger.Delivery
import RobotFramework.Logger.Failure
import RobotFramework.Logger.Framing
import RobotFramework.Main.TelemetryText
import RobotFramework.Main.Startup
import RobotFramework.Main.Steps
import RobotFramework.Main.Link
import RobotFramework.Main.Wheels
import RobotFramework.Main.Exit
import RobotFramework.Main.Speed
import RobotFramework.Main.Overcurrent
import RobotFramework.Main.Commands
import RobotFramework.Main.Dribbler
import RobotFramework.Main.Voltage
import RobotFramework.Main.SenderData
import RobotFramework.Main.Logs
import RobotFramework.Main.LogLines
import RobotFramework.Setup.Setup
import RobotFramework.Setup.BusMap
import RobotFramework.Setup.Encoding
import RobotFramework.Setup.Config
import RobotFramework.Setup.MotorIds
import RobotFramework.Setup.MotorMaps
import RobotFramework.Moteus.Values
import RobotFramework.Moteus.Parser
import RobotFramework.Telemetry.Wire
import RobotFramework.Pi3Hat.Transport
import RobotFramework.Telemetry.Reports
import RobotFramework.Main.Traffic
import RobotFramework.Main.Schedule
import RobotFramework.Pi3Hat.ServoMap
import RobotFramework.Fdcanusb.Send
import RobotFramework.Fdcanusb.Damage
import RobotFramework.Fdcanusb.Replies
import RobotFramework.Fdcanusb.Cycle
