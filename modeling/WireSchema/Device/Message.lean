import WireSchema.Codec.Shape
import WireSchema.Name.Reserved

/-! # The device protocol

Commands to a device and its answers. A command has a command id, and the answer to it has the same
id with the highest bit set. -/

namespace WireSchema.Device

/-! ### Enums -/

/-- An enum of the protocol: its members with their values. -/
structure Choice where
  name : String
  members : List (String × UInt8)

namespace Choice

/-- The shape of the values of an enum. -/
def shape (c : Choice) : Shape := .choice c.name (c.members.map (·.2))

/-- The member with a given value. -/
def member (c : Choice) (value : UInt8) : Except WireError (String × UInt8) :=
  match c.members.find? (·.2 == value) with
  | some m => .ok m
  | none => .error (.invalidEnumValue c.name value)

end Choice

/-- Byte order of the device. -/
def endian : Choice := ⟨"Endian", [("Little", 0), ("Big", 1)]⟩

/-- What the device is doing. -/
def deviceStatus : Choice :=
  ⟨"DeviceStatus", [("Offline", 0), ("Online", 1), ("Busy", 2), ("Error", 3)]⟩

/-- How a command went. -/
def errorCode : Choice :=
  ⟨"ErrorCode", [("None", 0), ("InvalidCommand", 1), ("InvalidParameter", 2), ("Timeout", 3),
    ("DeviceError", 4), ("Unknown", 255)]⟩

/-- The enums of the protocol. -/
def choices : List Choice := [endian, deviceStatus, errorCode]

/-! ### Messages -/

/-- A kind of message: its name, its command id if it is a command or an answer, and its fields. -/
structure Message where
  name : String
  commandId : Option UInt8
  fields : Fields

/-- The header in front of every payload. -/
def header : Message := ⟨"ProtocolHeader", none, .ofList [
  ("magic", .scalar .uint16),
  ("version", .scalar .uint8),
  ("command_id", .scalar .uint8),
  ("payload_length", .scalar .uint32),
  ("sequence_id", .scalar .uint32),
  ("checksum", .scalar .uint16)]⟩

def pingCommand : Message := ⟨"PingCommand", some 0x01, .ofList [
  ("timestamp", .scalar .uint64)]⟩

def pingResponse : Message := ⟨"PingResponse", some 0x81, .ofList [
  ("request_timestamp", .scalar .uint64),
  ("response_timestamp", .scalar .uint64)]⟩

def getDeviceInfoCommand : Message := ⟨"GetDeviceInfoCommand", some 0x02, .ofList [
  ("include_details", .scalar .bool)]⟩

/-- The temperature is in tenths of a degree Celsius. -/
def deviceInfoResponse : Message := ⟨"DeviceInfoResponse", some 0x82, .ofList [
  ("status", deviceStatus.shape),
  ("device_name", .fixedText 32),
  ("firmware_version", .fixedText 16),
  ("uptime_seconds", .scalar .uint32),
  ("temperature", .scalar .int16),
  ("battery_level", .scalar .uint8)]⟩

def sendDataCommand : Message := ⟨"SendDataCommand", some 0x03, .ofList [
  ("channel", .scalar .uint8),
  ("priority", .scalar .uint8),
  ("data", .prefixedBytes .uint16)]⟩

def sendDataResponse : Message := ⟨"SendDataResponse", some 0x83, .ofList [
  ("success", .scalar .bool),
  ("error_code", errorCode.shape),
  ("bytes_written", .scalar .uint32)]⟩

def setConfigCommand : Message := ⟨"SetConfigCommand", some 0x04, .ofList [
  ("config_id", .scalar .uint8),
  ("value_type", .scalar .uint8),
  ("value", .prefixedBytes .uint8)]⟩

def setConfigResponse : Message := ⟨"SetConfigResponse", some 0x84, .ofList [
  ("success", .scalar .bool),
  ("error_code", errorCode.shape)]⟩

def batchCommand : Message := ⟨"BatchCommand", some 0x10, .ofList [
  ("command_count", .scalar .uint8),
  ("commands", .prefixedBytes .uint16)]⟩

def batchResponse : Message := ⟨"BatchResponse", some 0x90, .ofList [
  ("success_count", .scalar .uint8),
  ("failure_count", .scalar .uint8),
  ("results", .prefixedBytes .uint16)]⟩

def vector3D : Message := ⟨"Vector3D", none, .ofList [
  ("x", .scalar .float32),
  ("y", .scalar .float32),
  ("z", .scalar .float32)]⟩

def sensorData : Message := ⟨"SensorData", none, .ofList [
  ("timestamp", .scalar .uint64),
  ("sensor_id", .scalar .uint8),
  ("position", .nested 12 vector3D.fields),
  ("temperature", .scalar .float32),
  ("humidity", .scalar .float32)]⟩

def sensorDataResponse : Message := ⟨"SensorDataResponse", some 0x85, .ofList [
  ("sensor_count", .scalar .uint8),
  ("sensors", .prefixedList .uint16 (.nested 29 sensorData.fields))]⟩

/-- Raw samples. The array runs to the end of the payload. -/
def streamSamplesCommand : Message := ⟨"StreamSamplesCommand", some 0x20, .ofList [
  ("channel", .scalar .uint8),
  ("samples", .restList (.scalar .int16))]⟩

def logMessage : Message := ⟨"LogMessage", some 0x21, .ofList [
  ("severity", .scalar .uint8),
  ("timestamp", .scalar .uint32),
  ("text", .restText)]⟩

def firmwareChunk : Message := ⟨"FirmwareChunk", none, .ofList [
  ("offset", .scalar .uint32),
  ("data", .restBytes)]⟩

/-- The messages of the protocol. -/
def messages : List Message := [
  header, pingCommand, pingResponse, getDeviceInfoCommand, deviceInfoResponse, sendDataCommand,
  sendDataResponse, setConfigCommand, setConfigResponse, batchCommand, batchResponse, vector3D,
  sensorData, sensorDataResponse, streamSamplesCommand, logMessage, firmwareChunk]

/-- The message of the given name. -/
def message? (name : String) : Option Message := messages.find? (·.name == name)

/-- The enum of the given name. -/
def choice? (name : String) : Option Choice := choices.find? (·.name == name)

/-- The constants for the command ids. -/
def commandIds : List (String × UInt8) :=
  messages.filterMap fun m => m.commandId.map fun id => (Name.upperSnake m.name, id)

end WireSchema.Device
